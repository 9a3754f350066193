import Libatp.Base.Checked
import Libatp.Base.Word

/-!
# `curl_instance` (`app/atp_curl_engine.cpp`)

libcurl hands the response of a request over in pieces, each with a call of `on_message`,
which copies it behind the pieces before it. The buffer is allocated once, and neither
`on_message` nor anything else compares its size with what arrives.
-/

namespace Libatp.App
open Base

/-- `DEFAULT_BUFFER_SIZE` -/
def defaultBufferSize : Nat := 1024 * 8

/-- `resp_data` -/
structure CurlInstance where
  buff : List Byte
  buffSize : Int
  cursor : Int

/-- `core_init` -/
def CurlInstance.init : CurlInstance where
  buff := List.replicate defaultBufferSize 0
  buffSize := defaultBufferSize
  cursor := 0

/-- The arguments of a call of `on_message`: an object of `buff_size * nmemb` bytes. -/
structure Chunk where
  buffSize : Nat
  nmemb : Nat
  data : List Byte
  full : data.length = buffSize * nmemb
  fits : buffSize * nmemb < wordSize

/-- libcurl passes 1 and the number of the bytes. -/
def Chunk.ofData (data : List Byte) (fits : data.length < wordSize) : Chunk where
  buffSize := 1
  nmemb := data.length
  data := data
  full := (Nat.one_mul _).symm
  fits := by rw [Nat.one_mul]; exact fits

/-- What happens in `curl_easy_perform`: the calls of `on_message`, and its result. -/
structure Transfer where
  chunks : List Chunk
  code : Int

/-- The response, or as much of it as arrived. -/
def Transfer.body (t : Transfer) : List Byte := (t.chunks.map Chunk.data).flatten

/-- `memcpy` to a pointer to which an `int` was added. -/
def storeAt (mem : List Byte) (off : Int) (src : List Byte) : Checked (List Byte) :=
  if 0 ≤ off then store mem off.toNat src else .error .outOfBounds

def onMessage (s : CurlInstance) (chunk : Chunk) : Checked (CurlInstance × Nat) := do
  let total := wrap (chunk.buffSize * chunk.nmemb)
  let data ← load chunk.data 0 total
  let buff ← storeAt s.buff s.cursor data
  pure ({ s with buff := buff, cursor := int32 (s.cursor + total) }, total)

def deliver (s : CurlInstance) : List Chunk → Checked CurlInstance
  | [] => pure s
  | chunk :: rest => do
    -- libcurl goes on, since the whole chunk was taken
    let (s, _) ← onMessage s chunk
    deliver s rest

/-- The state after the call, what it returns and `*error`. -/
def corePerform (s : CurlInstance) (t : Transfer) : Checked (CurlInstance × Int × Int) := do
  let s ← deliver { s with cursor := 0 } t.chunks
  pure (s, if t.code ≠ 0 then -1 else 0, t.code)

/-- Calls of `curl_instance_perform`, one after the other. -/
def performAll (s : CurlInstance) : List Transfer → Checked CurlInstance
  | [] => pure s
  | t :: rest => do
    let (s, _, _) ← corePerform s t
    performAll s rest

/-- `data` is the area the caller passes. -/
def coreGetData (s : CurlInstance) (data : List Byte) (size : Int) : Checked (List Byte) :=
  if size < s.cursor then pure data
  else do
    let data ← store data 0 (List.replicate size.toNat 0)
    let body ← load s.buff 0 s.cursor.toNat
    store data 0 body

/-! ## One request -/

structure Allocated (s : CurlInstance) : Prop where
  length : s.buff.length = defaultBufferSize
  buffSize : s.buffSize = defaultBufferSize

/-- The buffer starts with `bytes`, and the cursor stands behind them. -/
structure Holds (s : CurlInstance) (bytes : List Byte) : Prop extends Allocated s where
  cursor : s.cursor = bytes.length
  front : window s.buff 0 bytes.length = bytes

section
variable {s : CurlInstance} {bytes : List Byte}

theorem Holds.le (h : Holds s bytes) : bytes.length ≤ defaultBufferSize := by
  have length := congrArg List.length h.front
  rw [window_length, h.length] at length
  omega

theorem holds_nil (h : Allocated s) : Holds { s with cursor := 0 } [] where
  length := h.length
  buffSize := h.buffSize
  cursor := rfl
  front := window_zero _ _

/-- The size of a chunk is a word, so all of it is copied. -/
theorem onMessage_eq (h : Holds s bytes) (chunk : Chunk) :
    onMessage s chunk = (store s.buff bytes.length chunk.data >>= fun buff =>
      .ok ({ s with
        buff := buff
        cursor := int32 (bytes.length + chunk.data.length) },
        chunk.data.length)) := by
  have whole : wrap (chunk.buffSize * chunk.nmemb) = chunk.data.length := by
    rw [wrap_of_lt chunk.fits, chunk.full]
  have all : window chunk.data 0 chunk.data.length = chunk.data := by simp [window]
  have behind : (0 : Int) ≤ (bytes.length : Int) := Int.natCast_nonneg _
  simp only [onMessage, whole, load_ok (Nat.le_of_eq (Nat.zero_add _)), all, ok_bind, h.cursor,
    storeAt, if_pos behind, Int.toNat_natCast, pure_eq_ok]

theorem onMessage_inside (h : Holds s bytes) (chunk : Chunk)
    (room : bytes.length + chunk.data.length ≤ defaultBufferSize) :
    ∃ s', onMessage s chunk = .ok (s', chunk.data.length) ∧ Holds s' (bytes ++ chunk.data) := by
  have inside : bytes.length + chunk.data.length ≤ s.buff.length := by rw [h.length]; exact room
  have next : int32 (bytes.length + chunk.data.length) = (bytes ++ chunk.data).length := by
    have small : defaultBufferSize < 2 ^ 31 := by decide
    rw [List.length_append, int32_of_fits (by omega) (by omega), Int.natCast_add]
  have before : window (splice s.buff bytes.length chunk.data) 0 bytes.length = bytes := by
    rw [window_splice_before (by omega) (by omega), h.front]
  refine ⟨_, by rw [onMessage_eq h, store_ok inside, ok_bind, next], ?_⟩
  exact {
    length := (splice_length inside).trans h.length
    buffSize := h.buffSize
    cursor := rfl
    front := by
      rw [List.length_append, window_append, before, Nat.zero_add, window_splice_self inside] }

theorem onMessage_past (h : Holds s bytes) {chunk : Chunk}
    (past : defaultBufferSize < bytes.length + chunk.data.length) :
    onMessage s chunk = .error .outOfBounds := by
  have outside : s.buff.length < bytes.length + chunk.data.length := by rw [h.length]; exact past
  rw [onMessage_eq h, store_outside outside]
  rfl

theorem deliver_inside (h : Holds s bytes) (chunks : List Chunk)
    (room : bytes.length + (chunks.map Chunk.data).flatten.length ≤ defaultBufferSize) :
    ∃ s', deliver s chunks = .ok s' ∧ Holds s' (bytes ++ (chunks.map Chunk.data).flatten) := by
  induction chunks generalizing s bytes with
  | nil => exact ⟨s, rfl, by simpa using h⟩
  | cons chunk rest ih =>
    simp only [List.map_cons, List.flatten_cons, List.length_append] at room
    obtain ⟨s₁, call, h₁⟩ := onMessage_inside h chunk (by omega)
    obtain ⟨s₂, others, h₂⟩ := ih h₁ (by rw [List.length_append]; omega)
    refine ⟨s₂, ?_, ?_⟩
    · rw [deliver, call, ok_bind]
      exact others
    · rw [List.map_cons, List.flatten_cons, ← List.append_assoc]
      exact h₂

theorem deliver_past (h : Holds s bytes) {chunks : List Chunk}
    (past : defaultBufferSize < bytes.length + (chunks.map Chunk.data).flatten.length) :
    deliver s chunks = .error .outOfBounds := by
  induction chunks generalizing s bytes with
  | nil =>
    have le := h.le
    simp only [List.map_nil, List.flatten_nil, List.length_nil] at past
    omega
  | cons chunk rest ih =>
    simp only [List.map_cons, List.flatten_cons, List.length_append] at past
    by_cases room : bytes.length + chunk.data.length ≤ defaultBufferSize
    · obtain ⟨s₁, call, h₁⟩ := onMessage_inside h chunk room
      rw [deliver, call, ok_bind]
      exact ih h₁ (by rw [List.length_append]; omega)
    · rw [deliver, onMessage_past h (by omega)]
      rfl

/-! ## Request after request -/

theorem corePerform_inside (h : Allocated s) {t : Transfer}
    (room : t.body.length ≤ defaultBufferSize) :
    ∃ s', corePerform s t = .ok (s', if t.code ≠ 0 then -1 else 0, t.code) ∧
      Holds s' t.body := by
  obtain ⟨s', run, holds⟩ := deliver_inside (holds_nil h) t.chunks
    (by rw [List.length_nil, Nat.zero_add]; exact room)
  refine ⟨s', ?_, holds⟩
  rw [corePerform, run, ok_bind, pure_eq_ok]

theorem corePerform_past (h : Allocated s) {t : Transfer}
    (past : defaultBufferSize < t.body.length) : corePerform s t = .error .outOfBounds := by
  rw [corePerform, deliver_past (holds_nil h) (by rw [List.length_nil, Nat.zero_add]; exact past)]
  rfl

theorem performAll_inside (h : Allocated s) {earlier : List Transfer} {last : Transfer}
    (room : ∀ t ∈ earlier ++ [last], t.body.length ≤ defaultBufferSize) :
    ∃ s', performAll s (earlier ++ [last]) = .ok s' ∧ Holds s' last.body := by
  induction earlier generalizing s with
  | nil =>
    obtain ⟨s', call, holds⟩ := corePerform_inside h (room last (by simp))
    refine ⟨s', ?_, holds⟩
    rw [List.nil_append, performAll, call, ok_bind]
    rfl
  | cons t rest ih =>
    obtain ⟨s₁, call, h₁⟩ := corePerform_inside h (room t (by simp))
    obtain ⟨s₂, others, h₂⟩ := ih h₁.toAllocated fun u hu => room u (List.mem_cons_of_mem _ hu)
    refine ⟨s₂, ?_, h₂⟩
    rw [List.cons_append, performAll, call, ok_bind]
    exact others

theorem performAll_past (h : Allocated s) {ts : List Transfer} {t : Transfer} (mem : t ∈ ts)
    (past : defaultBufferSize < t.body.length) : performAll s ts = .error .outOfBounds := by
  induction ts generalizing s with
  | nil => cases mem
  | cons u rest ih =>
    by_cases room : u.body.length ≤ defaultBufferSize
    · obtain ⟨s₁, call, h₁⟩ := corePerform_inside h room
      rw [performAll, call, ok_bind]
      apply ih h₁.toAllocated
      rcases List.mem_cons.mp mem with rfl | later
      · omega
      · exact later
    · rw [performAll, corePerform_past h (by omega)]
      rfl

theorem coreGetData_holds (h : Holds s bytes) {data : List Byte} {size : Nat}
    (room : bytes.length ≤ size) (area : size ≤ data.length) :
    coreGetData s data size =
      .ok (bytes ++ List.replicate (size - bytes.length) 0 ++ data.drop size) := by
  have enough : ¬ (size : Int) < s.cursor := by rw [h.cursor]; omega
  have cleared : splice data 0 (List.replicate size (0 : Byte)) =
      List.replicate size 0 ++ data.drop size := by
    simp [splice]
  have length := h.le
  rw [coreGetData, if_neg enough, Int.toNat_natCast, h.cursor, Int.toNat_natCast,
    store_ok (by rw [List.length_replicate]; omega), ok_bind,
    load_ok (by rw [h.length]; omega), ok_bind, h.front, cleared,
    store_ok (by rw [List.length_append, List.length_replicate]; omega), splice, Nat.zero_add,
    List.take_zero, List.nil_append, List.append_assoc,
    List.drop_append_of_le_length (by rw [List.length_replicate]; exact room),
    List.drop_replicate]

end

theorem init_allocated : Allocated .init :=
  ⟨List.length_replicate, rfl⟩

/-- The requests were made and every byte was written inside the buffer; what the last one
received can be fetched into an area that is large enough. -/
def Collected (earlier : List Transfer) (last : Transfer) : Prop :=
  ∃ s, performAll .init (earlier ++ [last]) = .ok s ∧ 0 ≤ s.cursor ∧ s.cursor ≤ s.buffSize ∧
    ∀ (data : List Byte) (size : Nat), last.body.length ≤ size → size ≤ data.length →
      size < 2 ^ 31 → coreGetData s data size =
        .ok (last.body ++ List.replicate (size - last.body.length) 0 ++ data.drop size)

/-- **Responses are collected if and only if none is longer than the buffer.** -/
theorem responses_collected_iff (earlier : List Transfer) (last : Transfer) :
    Collected earlier last ↔
      ∀ t ∈ earlier ++ [last], t.body.length ≤ defaultBufferSize := by
  constructor
  · rintro ⟨s, run, _⟩ t mem
    by_contra past
    rw [performAll_past init_allocated mem (Nat.lt_of_not_le past)] at run
    cases run
  · intro room
    obtain ⟨s, run, holds⟩ := performAll_inside init_allocated room
    have le := holds.le
    refine ⟨s, run, ?_, ?_, fun data size enough area _ => coreGetData_holds holds enough area⟩
    · rw [holds.cursor]
      omega
    · rw [holds.cursor, holds.buffSize]
      omega

theorem body_singleton (chunk : Chunk) (code : Int) :
    Transfer.body ⟨[chunk], code⟩ = chunk.data := by
  simp [Transfer.body]

/-- A response one byte longer than the buffer, in one piece: the last byte is written
behind the buffer. -/
theorem long_response_overflows : ∃ t : Transfer, t.body.length = defaultBufferSize + 1 ∧
    performAll .init [t] = .error .outOfBounds := by
  have length : (List.replicate (defaultBufferSize + 1) (0 : Byte)).length =
    defaultBufferSize + 1 := List.length_replicate
  have fits : (List.replicate (defaultBufferSize + 1) (0 : Byte)).length < wordSize := by
    rw [length]
    decide
  have long : (Transfer.body ⟨[.ofData _ fits], 0⟩).length = defaultBufferSize + 1 := by
    rw [body_singleton]
    exact length
  exact ⟨_, long, performAll_past init_allocated (List.mem_singleton.mpr rfl) (by omega)⟩

end Libatp.App
