import Libatp.Buffer.ByteBuffer
import Mathlib.Data.List.TakeWhile

/-!
# `RSACrypto` (`app/atp_rsa_crypto.hpp`)

A key is what the PEM file holds; OpenSSL's block operations are functions of it. The text
that `decryptContent` gets back from OpenSSL goes through a `char` array and from there
into a `std::string` as a C string, so it ends at its first zero byte. A single block sets
the result; the loop over several appends to it, also to what an earlier call left there.
-/

namespace Libatp.App
open Base
open Buffer (cString cString_padded)

/-- `RSA_size`, `RSA_private_decrypt` and `RSA_public_encrypt` with one key. The functions
get a text and the kind of padding; `none` is a negative result. -/
structure Key where
  size : Nat
  pos : 0 < size
  decrypt : List Byte → Int → Option (List Byte)
  encrypt : List Byte → Int → Option (List Byte)

/-- `padding == 0 ? RSA_NO_PADDING : padding` -/
def paddingOf (padding : Int) : Int := if padding = 0 then 3 else padding

/-- `RSA_READ_PUBLIC_KEY_ERROR` -/
def readPublicKeyError : Int := -204

/-- `RSA_READ_PRIVATE_KEY_ERROR` -/
def readPrivateKeyError : Int := -205

/-- `RSA_DECRYPT_ERROR` -/
def decryptError : Int := -207

/-- `RSA_ENCRYPT_DATA_TO_LARGE` -/
def encryptDataTooLarge : Int := -209

/-- `DECRYPT_MAX_SIZE` -/
def decryptMaxSize : Nat := 1024

/-- The results, and the blocks that were given to `RSA_private_decrypt`. -/
structure RsaCrypto where
  encryptResult : List Byte
  decryptResult : List Byte
  decrypted : List (List Byte)

namespace RsaCrypto

def create : RsaCrypto := ⟨[], [], []⟩

def getRsaDecryptResult (s : RsaCrypto) : List Byte := s.decryptResult

end RsaCrypto

/-- `content` is followed by the zero that `c_str` guarantees. -/
def encryptContent (s : RsaCrypto) (key : Option Key) (content : List Byte) (padding : Int) :
    Checked (RsaCrypto × Int) :=
  match key with
  | none => pure (s, readPublicKeyError)
  | some key =>
    if key.size < content.length then pure (s, encryptDataTooLarge)
    else do
      let bytes ← load (content ++ [0#8]) 0 key.size
      let chunkBuff ← store (List.replicate (key.size + 1) 0#8) 0 bytes
      let text ← cString chunkBuff
      match key.encrypt text (paddingOf padding) with
      | none => pure (s, -1)
      | some out => do
        let chunkEncryptBuff ← store (List.replicate key.size 0#8) 0 out
        let result ← load chunkEncryptBuff 0 out.length
        pure ({ s with encryptResult := result }, 0)

/-- `origlen` is an `int`; nothing that is computed from it overflows. -/
def totalLen (origlen : Int) : Int := origlen.tdiv 4 * 3 + 2

def contentChunkSize (totalLen rsaLen : Int) : Int :=
  if totalLen.tmod rsaLen = 0 then totalLen.tdiv rsaLen else totalLen.tdiv rsaLen + 1

/-- One round of the loop; `false` if the block cannot be decrypted. -/
def decryptChunk (key : Key) (content : List Byte) (padding : Int) (i : Nat) (s : RsaCrypto) :
    Checked (RsaCrypto × Bool) := do
  let bytes ← load (content ++ [0#8]) (i * key.size) key.size
  let chunkBuff ← store (List.replicate (256 + 1) 0#8) 0 bytes
  let block ← load chunkBuff 0 key.size
  let s := { s with decrypted := s.decrypted ++ [block] }
  match key.decrypt block (paddingOf padding) with
  | none => pure (s, false)
  | some plain => do
    let chunkDecryptBuff ← store (List.replicate 256 0#8) 0 plain
    let result ← load chunkDecryptBuff 0 plain.length
    let tmpBuff ← store (List.replicate 256 0#8) 0 result
    let text ← cString tmpBuff
    pure ({ s with decryptResult := s.decryptResult ++ text }, true)

/-- The rounds from `i` on, `n` of them. -/
def decryptChunks (key : Key) (content : List Byte) (padding : Int) :
    (n i : Nat) → RsaCrypto → Checked (RsaCrypto × Bool)
  | 0, _, s => pure (s, true)
  | n + 1, i, s => do
    let (s, fine) ← decryptChunk key content padding i s
    if fine then decryptChunks key content padding n (i + 1) s else pure (s, false)

/-- The branch for a single block. -/
def decryptSingle (key : Key) (content : List Byte) (padding : Int) (s : RsaCrypto) :
    Checked (RsaCrypto × Int) := do
  let block ← load (content ++ [0#8]) 0 key.size
  let s := { s with decrypted := s.decrypted ++ [block] }
  match key.decrypt block (paddingOf padding) with
  | none => pure (s, decryptError)
  | some plain => do
    let decryptBuff ← store (List.replicate decryptMaxSize 0#8) 0 plain
    let text ← cString decryptBuff
    pure ({ s with decryptResult := text }, 0)

def decryptContent (s : RsaCrypto) (key : Option Key) (content : List Byte)
    (origlen padding : Int) : Checked (RsaCrypto × Int) :=
  match key with
  | none => pure (s, readPrivateKeyError)
  | some key =>
    if totalLen origlen > key.size then do
      let rounds := (contentChunkSize (totalLen origlen) key.size - 1).toNat
      let (s, fine) ← decryptChunks key content padding rounds 0 s
      pure (s, if fine then 0 else decryptError)
    else decryptSingle key content padding s

/-- A call, with the key it finds in its file. -/
inductive Call where
  | encrypt (key : Option Key) (content : List Byte) (padding : Int)
  | decrypt (key : Option Key) (content : List Byte) (origlen padding : Int)

def Call.run (s : RsaCrypto) : Call → Checked (RsaCrypto × Int)
  | encrypt key content padding => encryptContent s key content padding
  | decrypt key content origlen padding => decryptContent s key content origlen padding

def runCalls (s : RsaCrypto) : List Call → Checked RsaCrypto
  | [] => pure s
  | call :: rest => do
    let (s, _) ← call.run s
    runCalls s rest

/-! ## C strings -/

/-- What is left of a text that is read as a C string. -/
def cut (text : List Byte) : List Byte := text.takeWhile (· ≠ 0#8)

theorem zero_notMem_cut (text : List Byte) : 0#8 ∉ cut text := by
  intro mem
  have nonzero := List.mem_takeWhile_imp mem
  simp at nonzero

theorem cut_eq_self {text : List Byte} (h : 0#8 ∉ text) : cut text = text := by
  rw [cut, List.takeWhile_eq_self_iff]
  intro b mem
  exact decide_eq_true fun zero => h (zero ▸ mem)

theorem zero_notMem_of_cString {mem text : List Byte} (h : cString mem = .ok text) :
    0#8 ∉ text := by
  unfold cString at h
  split at h
  · cases h
    exact zero_notMem_cut mem
  · cases h

/-! ## The result has no zero byte -/

def Textual (s : RsaCrypto) : Prop := 0#8 ∉ s.decryptResult

section
variable {s s' : RsaCrypto} {key : Key} {content : List Byte} {padding : Int}

theorem decryptChunk_textual {i : Nat} {fine : Bool}
    (h : decryptChunk key content padding i s = .ok (s', fine)) (hs : Textual s) : Textual s' := by
  simp only [decryptChunk, bind_ok_iff] at h
  obtain ⟨_, _, _, _, block, _, h⟩ := h
  cases plain : key.decrypt block (paddingOf padding) with
  | none =>
    simp only [plain] at h
    cases h
    exact hs
  | some text =>
    simp only [plain, bind_ok_iff] at h
    obtain ⟨_, _, _, _, _, _, text, read, done⟩ := h
    cases done
    intro mem
    rcases List.mem_append.mp mem with old | new
    · exact hs old
    · exact zero_notMem_of_cString read new

theorem decryptChunks_textual {n i : Nat} {fine : Bool}
    (h : decryptChunks key content padding n i s = .ok (s', fine)) (hs : Textual s) :
    Textual s' := by
  induction n generalizing i s with
  | zero =>
    cases h
    exact hs
  | succ n ih =>
    obtain ⟨⟨s₁, fine₁⟩, chunk, rest⟩ := bind_ok_iff.mp h
    have h₁ := decryptChunk_textual chunk hs
    cases fine₁ with
    | true => exact ih rest h₁
    | false =>
      cases rest
      exact h₁

theorem decryptSingle_textual {ret : Int}
    (h : decryptSingle key content padding s = .ok (s', ret)) (hs : Textual s) : Textual s' := by
  obtain ⟨block, _, h⟩ := bind_ok_iff.mp h
  cases plain : key.decrypt block (paddingOf padding) with
  | none =>
    simp only [plain] at h
    cases h
    exact hs
  | some text =>
    simp only [plain, bind_ok_iff] at h
    obtain ⟨_, _, text, read, done⟩ := h
    cases done
    exact zero_notMem_of_cString read

theorem decryptContent_textual {file : Option Key} {origlen ret : Int}
    (h : decryptContent s file content origlen padding = .ok (s', ret)) (hs : Textual s) :
    Textual s' := by
  cases file with
  | none =>
    cases h
    exact hs
  | some key =>
    simp only [decryptContent] at h
    split at h
    · obtain ⟨⟨s₁, fine⟩, chunks, done⟩ := bind_ok_iff.mp h
      cases done
      exact decryptChunks_textual chunks hs
    · exact decryptSingle_textual h hs

theorem encryptContent_decryptResult {file : Option Key} {ret : Int}
    (h : encryptContent s file content padding = .ok (s', ret)) :
    s'.decryptResult = s.decryptResult := by
  cases file with
  | none =>
    cases h
    rfl
  | some key =>
    simp only [encryptContent] at h
    split at h
    · cases h
      rfl
    · simp only [bind_ok_iff] at h
      obtain ⟨_, _, _, _, text, _, h⟩ := h
      cases out : key.encrypt text (paddingOf padding) with
      | none =>
        simp only [out] at h
        cases h
        rfl
      | some cipher =>
        simp only [out, bind_ok_iff] at h
        obtain ⟨_, _, _, _, done⟩ := h
        cases done
        rfl

theorem call_textual {call : Call} {ret : Int} (h : call.run s = .ok (s', ret))
    (hs : Textual s) : Textual s' := by
  cases call with
  | encrypt file content padding =>
    rw [Textual, encryptContent_decryptResult h]
    exact hs
  | decrypt file content origlen padding => exact decryptContent_textual h hs

theorem runCalls_textual {calls : List Call} (h : runCalls s calls = .ok s') (hs : Textual s) :
    Textual s' := by
  induction calls generalizing s with
  | nil =>
    cases h
    exact hs
  | cons call rest ih =>
    obtain ⟨⟨s₁, ret⟩, first, others⟩ := bind_ok_iff.mp h
    exact ih others (call_textual first hs)

end

/-! ## A text in several blocks -/

/-- `cipher` is a block that OpenSSL decrypts to `plain`, which is short enough to have been
encrypted with the padding of PKCS #1. -/
structure Encrypts (key : Key) (padding : Int) (cipher plain : List Byte) : Prop where
  block : cipher.length = key.size
  inverse : key.decrypt cipher (paddingOf padding) = some plain
  short : plain.length ≤ key.size - 11

/-- The length of the Base64 text of `n` bytes. -/
def base64Length (n : Nat) : Nat := 4 * ((n + 2) / 3)

section
variable {key : Key} {padding : Int} {s : RsaCrypto}

/-- The estimate is two to four bytes too large. -/
theorem totalLen_base64 (n : Nat) :
    ∃ e, 2 ≤ e ∧ e ≤ 4 ∧ totalLen (base64Length n) = (e + n : Nat) := by
  refine ⟨3 * ((n + 2) / 3) - n + 2, by omega, by omega, ?_⟩
  rw [totalLen, Int.tdiv_eq_ediv_of_nonneg (by omega), base64Length]
  omega

/-- So the division leaves a remainder, and the number of blocks comes out one too large. -/
theorem contentChunkSize_blocks {k e size : Nat} (some : 0 < e) (few : e < size) :
    contentChunkSize (e + k * size : Nat) size = k + 1 := by
  have mod : ((e + k * size : Nat) : Int).tmod size = e := by
    rw [← Int.ofNat_tmod, Nat.add_mul_mod_self_right, Nat.mod_eq_of_lt few]
  have div : ((e + k * size : Nat) : Int).tdiv size = k := by
    rw [← Int.ofNat_tdiv, Nat.add_mul_div_right _ _ (by omega), Nat.div_eq_of_lt few, Nat.zero_add]
  rw [contentChunkSize, mod, div, if_neg (by omega)]

theorem decryptChunk_block (large : key.size ≤ 256) {cipher plain front rest : List Byte}
    {i : Nat} (behind : front.length = i * key.size) (h : Encrypts key padding cipher plain) :
    decryptChunk key (front ++ (cipher ++ rest)) padding i s =
      .ok ({ s with
        decryptResult := s.decryptResult ++ cut plain
        decrypted := s.decrypted ++ [cipher] }, true) := by
  have read : load (front ++ (cipher ++ rest) ++ [0#8]) (i * key.size) key.size = .ok cipher := by
    rw [List.append_assoc, List.append_assoc, ← behind, ← h.block]
    exact load_middle _ _ _
  have short := h.short
  have pos := key.pos
  have copied := store_replicate cipher (n := 256 + 1) (a := 0#8) (by rw [h.block]; omega)
  have kept := store_replicate plain (n := 256) (a := 0#8) (by omega)
  have text : cString (plain ++ List.replicate (256 - plain.length) 0#8) = .ok (cut plain) :=
    cString_padded (by omega)
  have block : ∀ pad, load (cipher ++ pad) 0 key.size = .ok cipher := by
    intro pad
    rw [← h.block]
    exact load_front _ _
  simp only [decryptChunk, read, copied, block, h.inverse, kept, load_front, ok_bind,
    text, pure_eq_ok]

theorem decryptChunks_blocks (large : key.size ≤ 256) {ciphers plains : List (List Byte)}
    (blocks : List.Forall₂ (Encrypts key padding) ciphers plains) (front : List Byte) {i : Nat}
    (behind : front.length = i * key.size) :
    decryptChunks key (front ++ ciphers.flatten) padding ciphers.length i s =
      .ok ({ s with
        decryptResult := s.decryptResult ++ (plains.map cut).flatten
        decrypted := s.decrypted ++ ciphers }, true) := by
  induction blocks generalizing front i s with
  | nil => simp [decryptChunks]
  | @cons cipher plain ciphers plains first _ ih =>
    have next : (front ++ cipher).length = (i + 1) * key.size := by
      rw [List.length_append, behind, first.block, Nat.succ_mul]
    have others := ih (s := { s with
      decryptResult := s.decryptResult ++ cut plain
      decrypted := s.decrypted ++ [cipher] }) _ next
    rw [List.append_assoc] at others
    rw [List.length_cons, decryptChunks, List.flatten_cons, decryptChunk_block large behind first,
      ok_bind]
    simp only [if_true]
    rw [others]
    simp

theorem flatten_length {ciphers plains : List (List Byte)}
    (blocks : List.Forall₂ (Encrypts key padding) ciphers plains) :
    ciphers.flatten.length = ciphers.length * key.size := by
  induction blocks with
  | nil => simp
  | cons first _ ih =>
    rw [List.flatten_cons, List.length_append, ih, first.block, List.length_cons, Nat.succ_mul,
      Nat.add_comm]

/-- Each block is decrypted once. -/
theorem decryptContent_blocks (small : 64 ≤ key.size) (large : key.size ≤ 256)
    {ciphers plains : List (List Byte)}
    (blocks : List.Forall₂ (Encrypts key padding) ciphers plains) (nonempty : ciphers ≠ []) :
    decryptContent s (some key) ciphers.flatten (base64Length ciphers.flatten.length) padding =
      .ok ({ s with
        decryptResult := s.decryptResult ++ (plains.map cut).flatten
        decrypted := s.decrypted ++ ciphers }, 0) := by
  obtain ⟨e, two, four, total⟩ := totalLen_base64 ciphers.flatten.length
  rw [flatten_length blocks] at total ⊢
  have one : 1 ≤ ciphers.length := List.length_pos_iff.mpr nonempty
  have several : totalLen (base64Length (ciphers.length * key.size)) > key.size := by
    have least := Nat.mul_le_mul_right key.size one
    rw [total]
    omega
  have rounds : (contentChunkSize (totalLen (base64Length (ciphers.length * key.size))) key.size
      - 1).toNat = ciphers.length := by
    rw [total, contentChunkSize_blocks (by omega) (by omega)]
    omega
  have run := decryptChunks_blocks (s := s) large blocks [] (i := 0) (by simp)
  rw [List.nil_append] at run
  simp only [decryptContent, if_pos several, rounds, run, ok_bind, pure_eq_ok, if_true]

end

theorem result_iff {old : List Byte} {plains : List (List Byte)} (text : 0#8 ∉ old) :
    old ++ (plains.map cut).flatten = plains.flatten ↔
      old = [] ∧ ∀ plain ∈ plains, 0#8 ∉ plain := by
  have uncut : (∀ plain ∈ plains, 0#8 ∉ plain) → plains.map cut = plains := by
    intro free
    rw [List.map_congr_left fun plain mem => cut_eq_self (free plain mem), List.map_id']
  constructor
  · intro same
    have free : ∀ plain ∈ plains, 0#8 ∉ plain := by
      intro plain mem zero
      -- the left side has no zero byte at all
      have inside : 0#8 ∈ plains.flatten := List.mem_flatten_of_mem mem zero
      rw [← same, List.mem_append, List.mem_flatten] at inside
      rcases inside with inside | ⟨part, piece, inside⟩
      · exact text inside
      · obtain ⟨other, _, rfl⟩ := List.mem_map.mp piece
        exact zero_notMem_cut other inside
    rw [uncut free] at same
    exact ⟨List.append_cancel_right (same.trans (List.nil_append _).symm), free⟩
  · rintro ⟨rfl, free⟩
    rw [uncut free, List.nil_append]

/-- **Piecewise decryption.** After any calls, for any number of blocks, exactly these
blocks are decrypted; the result is their text if and only if the result was empty before
and no plaintext has a zero byte. -/
theorem piecewise_decryption_iff {key : Key} (small : 64 ≤ key.size) (large : key.size ≤ 256)
    {calls : List Call} {s : RsaCrypto} (earlier : runCalls .create calls = .ok s)
    {padding : Int} {ciphers plains : List (List Byte)}
    (blocks : List.Forall₂ (Encrypts key padding) ciphers plains) (nonempty : ciphers ≠ []) :
    ∃ s', decryptContent s (some key) ciphers.flatten (base64Length ciphers.flatten.length)
        padding = .ok (s', 0) ∧
      s'.decrypted = s.decrypted ++ ciphers ∧
      (s'.getRsaDecryptResult = plains.flatten ↔
        s.getRsaDecryptResult = [] ∧ ∀ plain ∈ plains, 0#8 ∉ plain) := by
  have text : Textual s := runCalls_textual earlier List.not_mem_nil
  exact ⟨_, decryptContent_blocks small large blocks nonempty, rfl, result_iff text⟩

/-- A block of 64 bytes: the length of a text, the text, and zeros. -/
def framed (text : List Byte) : List Byte :=
  BitVec.ofNat 8 text.length :: text ++ List.replicate (63 - text.length) 0

def framedKey : Key where
  size := 64
  pos := by decide
  decrypt block _ := some ((block.drop 1).take (block.headD 0).toNat)
  encrypt text _ := some (framed text)

theorem piecewise_decryption_pair : ∃ s', decryptContent .create (some framedKey)
      [framed [1, 2], framed [3]].flatten (base64Length 128) 1 = .ok (s', 0) ∧
    s'.decrypted = [framed [1, 2], framed [3]] ∧ s'.getRsaDecryptResult = [1, 2, 3] := by
  have blocks : List.Forall₂ (Encrypts framedKey 1) [framed [1, 2], framed [3]] [[1, 2], [3]] :=
    .cons ⟨by decide, by decide, by decide⟩ (.cons ⟨by decide, by decide, by decide⟩ .nil)
  have fresh : runCalls .create [] = .ok .create := rfl
  obtain ⟨s', call, decrypted, result⟩ := piecewise_decryption_iff (by decide) (by decide) fresh
    blocks (by decide)
  exact ⟨s', call, decrypted, result.mpr ⟨rfl, by decide⟩⟩

theorem decryptContent_framed (text : List Byte) (h : Encrypts framedKey 1 (framed text) text)
    (s : RsaCrypto) : decryptContent s (some framedKey) (framed text) (base64Length 64) 1 =
      .ok ({ s with
        decryptResult := s.decryptResult ++ cut text
        decrypted := s.decrypted ++ [framed text] }, 0) := by
  have length : (framed text).length = 64 := h.block
  have call := decryptContent_blocks (s := s) (by decide) (by decide) (.cons h .nil)
    (List.cons_ne_nil _ _)
  simpa [length] using call

/-- A text with a zero byte is cut there, and a second call on the same object appends its
text to that of the first. -/
theorem decryption_cut_or_appended :
    (∃ s', decryptContent .create (some framedKey) (framed [1, 0, 2]) (base64Length 64) 1 =
      .ok (s', 0) ∧ s'.getRsaDecryptResult = [1]) ∧
    ∃ s s', runCalls .create [.decrypt (some framedKey) (framed [1]) (base64Length 64) 1] = .ok s ∧
      decryptContent s (some framedKey) (framed [2]) (base64Length 64) 1 = .ok (s', 0) ∧
      s'.getRsaDecryptResult = [1, 2] := by
  constructor
  · have call := decryptContent_framed [1, 0, 2] ⟨by decide, by decide, by decide⟩ .create
    exact ⟨_, call, by decide⟩
  · have first := decryptContent_framed [1] ⟨by decide, by decide, by decide⟩ .create
    have second := decryptContent_framed [2] ⟨by decide, by decide, by decide⟩
      ⟨[], [1], [framed [1]]⟩
    refine ⟨⟨[], [1], [framed [1]]⟩, _, ?_, second, by decide⟩
    rw [runCalls, Call.run, first, ok_bind]
    rfl

end Libatp.App
