import Libatp.App.RsaCrypto

/-!
# Encrypting and decrypting one text (`app/atp_rsa_crypto.hpp`)

`encryptContent` copies as many bytes as the modulus has from `content.c_str()`, whatever the
length of the text, and gives OpenSSL what comes before the first zero byte. So the text has
to fill the block, and with a padding it must not.
-/

namespace Libatp.App
open Base
open Buffer (cString cString_padded)

/-- `RSA_NO_PADDING` -/
def rsaNoPadding : Int := 3

/-- What OpenSSL promises for a pair of keys: without padding it takes texts as long as the
modulus, every padding needs eleven bytes or more, and decryption inverts encryption. -/
structure OpenSsl (key : Key) : Prop where
  block : ∀ {text padding out}, key.encrypt text padding = some out → out.length = key.size
  whole : ∀ {text out}, key.encrypt text rsaNoPadding = some out → text.length = key.size
  padded : ∀ {text padding out}, padding ≠ rsaNoPadding → key.encrypt text padding = some out →
    text.length + 11 ≤ key.size
  inverse : ∀ {text padding out}, key.encrypt text padding = some out →
    key.decrypt out padding = some text

section
variable {key : Key} {s s' : RsaCrypto} {content : List Byte} {padding : Int}

theorem OpenSsl.short (ssl : OpenSsl key) {text out : List Byte}
    (h : key.encrypt text padding = some out) : text.length ≤ key.size := by
  by_cases whole : padding = rsaNoPadding
  · rw [whole] at h
    exact Nat.le_of_eq (ssl.whole h)
  · have := ssl.padded whole h
    omega

/-! ## Encrypting -/

/-- The text fills the block, or the zero after it does. -/
def Fills (key : Key) (content : List Byte) : Prop :=
  content.length ≤ key.size ∧ key.size ≤ content.length + 1

/-- Shorter texts are read beyond their end. -/
theorem encryptContent_short (short : content.length + 1 < key.size) :
    encryptContent s (some key) content padding = .error .outOfBounds := by
  have outside : load (content ++ [0#8]) 0 key.size = .error .outOfBounds :=
    if_neg (by rw [List.length_append, List.length_singleton]; omega)
  simp only [encryptContent, if_neg (show ¬ key.size < content.length by omega), outside]
  rfl

/-- The bytes that are copied, with the zero that is behind them in the array. -/
theorem Fills.text (fills : Fills key content) :
    ∃ bytes chunkBuff, load (content ++ [0#8]) 0 key.size = .ok bytes ∧
      store (List.replicate (key.size + 1) 0#8) 0 bytes = .ok chunkBuff ∧
      cString chunkBuff = .ok (cut content) := by
  obtain ⟨upper, lower⟩ := fills
  rcases Nat.eq_or_lt_of_le upper with equal | less
  · have stored := store_replicate content (n := key.size + 1) (a := 0#8) (by omega)
    refine ⟨content, _, ?_, stored, cString_padded (by omega)⟩
    rw [← equal]
    exact load_front content [0#8]
  · have length : (content ++ [0#8]).length = key.size := by
      rw [List.length_append, List.length_singleton]
      omega
    have stored := store_replicate (content ++ [0#8]) (n := key.size + 1) (a := 0#8) (by omega)
    refine ⟨content ++ [0#8], _, ?_, stored, ?_⟩
    · have front := load_front (content ++ [0#8]) []
      rwa [List.append_nil, length] at front
    · rw [List.append_assoc, ← List.replicate_one, ← List.replicate_add]
      exact cString_padded (by omega)

theorem encryptContent_refused (fills : Fills key content)
    (refused : key.encrypt (cut content) (paddingOf padding) = none) :
    encryptContent s (some key) content padding = .ok (s, -1) := by
  obtain ⟨bytes, chunkBuff, read, copied, text⟩ := fills.text
  simp only [encryptContent, if_neg (Nat.not_lt.mpr fills.1), read, copied, text, refused, ok_bind,
    pure_eq_ok]

theorem encryptContent_accepted (ssl : OpenSsl key) (fills : Fills key content) {out : List Byte}
    (accepted : key.encrypt (cut content) (paddingOf padding) = some out) :
    encryptContent s (some key) content padding = .ok ({ s with encryptResult := out }, 0) := by
  obtain ⟨bytes, chunkBuff, read, copied, text⟩ := fills.text
  have stored := store_replicate out (n := key.size) (a := 0#8) (Nat.le_of_eq (ssl.block accepted))
  simp only [encryptContent, if_neg (Nat.not_lt.mpr fills.1), read, copied, text, accepted, stored,
    load_front, ok_bind, pure_eq_ok]

/-- A call that returns 0 has encrypted what comes before the first zero byte. -/
theorem encryptContent_zero (ssl : OpenSsl key)
    (h : encryptContent s (some key) content padding = .ok (s', 0)) :
    Fills key content ∧ ∃ out, key.encrypt (cut content) (paddingOf padding) = some out ∧
      s' = { s with encryptResult := out } := by
  by_cases large : key.size < content.length
  · simp only [encryptContent, if_pos large, pure_eq_ok, Except.ok.injEq, Prod.mk.injEq] at h
    cases h.2
  by_cases short : content.length + 1 < key.size
  · rw [encryptContent_short short] at h
    cases h
  have fills : Fills key content := ⟨by omega, by omega⟩
  cases answer : key.encrypt (cut content) (paddingOf padding) with
  | none =>
    rw [encryptContent_refused fills answer] at h
    cases h
  | some out =>
    rw [encryptContent_accepted ssl fills answer] at h
    cases h
    exact ⟨fills, out, rfl, rfl⟩

/-! ## Decrypting what comes out -/

/-- One block, of any text. It goes through an array of 256 bytes, and from there into a
string. -/
theorem decryptContent_block (small : 64 ≤ key.size) (large : key.size ≤ 256)
    {cipher plain : List Byte} (block : cipher.length = key.size)
    (inverse : key.decrypt cipher (paddingOf padding) = some plain)
    (short : plain.length ≤ key.size) :
    decryptContent s (some key) cipher (base64Length cipher.length) padding =
      (cString (plain ++ List.replicate (256 - plain.length) 0#8) >>= fun text =>
        .ok ({ s with
          decryptResult := s.decryptResult ++ text
          decrypted := s.decrypted ++ [cipher] }, 0)) := by
  obtain ⟨e, two, four, total⟩ := totalLen_base64 cipher.length
  have one : e + cipher.length = e + 1 * key.size := by rw [block, Nat.one_mul]
  have several : totalLen (base64Length cipher.length) > key.size := by
    rw [total]
    omega
  have rounds : (contentChunkSize (totalLen (base64Length cipher.length)) key.size - 1).toNat =
      1 := by
    rw [total, one, contentChunkSize_blocks (by omega) (by omega)]
    rfl
  have read : load (cipher ++ [0#8]) (0 * key.size) key.size = .ok cipher := by
    rw [Nat.zero_mul, ← block]
    exact load_front cipher [0#8]
  have copied := store_replicate cipher (n := 256 + 1) (a := 0#8) (by omega)
  have kept := store_replicate plain (n := 256) (a := 0#8) (by omega)
  have whole : ∀ pad, load (cipher ++ pad) 0 key.size = .ok cipher := by
    intro pad
    rw [← block]
    exact load_front _ _
  simp only [decryptContent, if_pos several, rounds, decryptChunks, decryptChunk, read, copied,
    whole, inverse, kept, load_front, ok_bind]
  cases cString (plain ++ List.replicate (256 - plain.length) 0#8) with
  | error fault => rfl
  | ok text => rfl

/-- A text without zero bytes that fills the array has no end there. -/
theorem cString_full {plain : List Byte} (free : 0#8 ∉ plain) (full : 256 ≤ plain.length) :
    cString (plain ++ List.replicate (256 - plain.length) 0#8) = .error .outOfBounds := by
  rw [Nat.sub_eq_zero_of_le full, List.replicate_zero, List.append_nil]
  exact if_neg free

/-- **The round trip.** Whatever was done before: encrypting a text and decrypting the result
gives the text back exactly if there is no padding, the text fills the block and has no zero
byte, the modulus is shorter than 256 bytes, and no earlier decryption left a result. -/
theorem rsa_round_trip_iff (small : 64 ≤ key.size) (large : key.size ≤ 256) (ssl : OpenSsl key)
    {calls : List Call} (earlier : runCalls .create calls = .ok s) (content : List Byte)
    (padding : Int) :
    (∃ s₁ s₂, encryptContent s (some key) content padding = .ok (s₁, 0) ∧
      decryptContent s₁ (some key) s₁.encryptResult (base64Length s₁.encryptResult.length)
        padding = .ok (s₂, 0) ∧ s₂.getRsaDecryptResult = content) ↔
    paddingOf padding = rsaNoPadding ∧ content.length = key.size ∧ 0#8 ∉ content ∧
      (key.encrypt content rsaNoPadding).isSome = true ∧ key.size < 256 ∧
      s.getRsaDecryptResult = [] := by
  have textual : Textual s := runCalls_textual earlier List.not_mem_nil
  have cutFree := zero_notMem_cut content
  constructor
  · rintro ⟨s₁, s₂, encrypted, decrypted, result⟩
    obtain ⟨⟨_, lower⟩, out, accepted, rfl⟩ := encryptContent_zero ssl encrypted
    rw [decryptContent_block small large (ssl.block accepted) (ssl.inverse accepted)
      (ssl.short accepted)] at decrypted
    obtain ⟨text, read, done⟩ := bind_ok_iff.mp decrypted
    cases done
    have room : (cut content).length < 256 := by
      by_contra full
      rw [cString_full cutFree (Nat.not_lt.mp full)] at read
      cases read
    rw [cString_padded (by omega)] at read
    have uncut : text = cut content := by
      cases read
      exact cut_eq_self cutFree
    have appended : s.decryptResult ++ text = content := result
    have both : s.decryptResult ++ ([content].map cut).flatten = [content].flatten := by
      rw [uncut] at appended
      simpa using appended
    obtain ⟨fresh, free⟩ := (result_iff textual).mp both
    have same : cut content = content := cut_eq_self (free content (List.mem_singleton_self _))
    rw [same] at accepted room
    have whole : paddingOf padding = rsaNoPadding := by
      by_contra padded
      have := ssl.padded padded accepted
      omega
    rw [whole] at accepted
    have length := ssl.whole accepted
    exact ⟨whole, length, free content (List.mem_singleton_self _), by rw [accepted]; rfl,
      length ▸ room, fresh⟩
  · rintro ⟨whole, length, free, some, room, fresh⟩
    obtain ⟨out, accepted⟩ := Option.isSome_iff_exists.mp some
    rw [← cut_eq_self free, ← whole] at accepted
    have fills : Fills key content := ⟨by omega, by omega⟩
    have short : (cut content).length < 256 := by
      rw [cut_eq_self free]
      omega
    have text : cString (cut content ++ List.replicate (256 - (cut content).length) 0#8) =
        .ok content := by
      rw [cString_padded (by omega)]
      exact congrArg _ ((cut_eq_self cutFree).trans (cut_eq_self free))
    have decrypted := decryptContent_block (s := { s with encryptResult := out }) small large
      (ssl.block accepted) (ssl.inverse accepted) (ssl.short accepted)
    rw [text, ok_bind] at decrypted
    refine ⟨_, _, encryptContent_accepted ssl fills accepted, decrypted, ?_⟩
    show s.decryptResult ++ content = content
    rw [show s.decryptResult = [] from fresh, List.nil_append]

/-- A key that leaves texts as they are, and has no padding. -/
def identityKey : Key where
  size := 96
  pos := by decide
  decrypt block _ := some block
  encrypt text padding := if text.length = 96 ∧ padding = rsaNoPadding then some text else none

theorem identityKey_openSsl : OpenSsl identityKey := by
  have given {text out : List Byte} {padding : Int}
      (h : identityKey.encrypt text padding = some out) :
      (text.length = 96 ∧ padding = rsaNoPadding) ∧ text = out := by
    simp only [identityKey] at h
    split at h
    · rename_i both
      exact ⟨both, Option.some.inj h⟩
    · cases h
  refine ⟨fun h => ?_, fun h => (given h).1.1, fun padded h => absurd (given h).1.2 padded,
    fun h => ?_⟩
  · obtain ⟨both, rfl⟩ := given h
    exact both.1
  · rw [(given h).2]
    rfl

/-- A block of ones. -/
theorem rsa_round_trip_ones : ∃ s₁ s₂,
    encryptContent .create (some identityKey) (List.replicate 96 1) 0 = .ok (s₁, 0) ∧
    decryptContent s₁ (some identityKey) s₁.encryptResult (base64Length s₁.encryptResult.length)
      0 = .ok (s₂, 0) ∧ s₂.getRsaDecryptResult = List.replicate 96 1 := by
  have fresh : runCalls .create [] = .ok .create := rfl
  exact (rsa_round_trip_iff (by decide) (by decide) identityKey_openSsl fresh _ _).mpr
    ⟨rfl, rfl, by decide, rfl, by decide, rfl⟩

end

end Libatp.App
