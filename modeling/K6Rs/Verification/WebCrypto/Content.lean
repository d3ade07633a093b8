import Mathlib.Data.Set.Basic
import K6Rs.Verification.WebCrypto.Hex

/-! # The content of data through its hexadecimal text

A code unit keeps its low byte, and an array buffer is taken for the text of its name. -/

namespace K6Rs

variable {lib : CryptoLib} {mode : AesMode} {key : CryptoKey} {iv : Buffer} {values : Set WcData}

/-! ## Bytes -/

/-- The code units of a string, or the bytes of a buffer. -/
def WcData.content : WcData → List ℕ
  | .string units => units.map UInt16.toNat
  | .buffer (.uint8Array bytes) => bytes.map UInt8.toNat
  | .buffer (.arrayBuffer bytes) => bytes.map UInt8.toNat

/-- The numbers that are written in hexadecimal. -/
def WcData.written : WcData → List ℕ
  | .buffer (.arrayBuffer _) => arrayBufferText.map UInt16.toNat
  | data => data.content

/-- The bytes that the native functions work on. -/
def fedBytes (data : WcData) : Except WcError (List UInt8) := hexDecode (toHex data)

theorem strToHex_eq (units : JsString) :
    strToHex units = (units.map UInt16.toNat).flatMap Hex.pair := by
  rw [strToHex, List.flatMap_map]
  congr 1
  funext code
  exact Hex.takeLast_toDigits _

theorem u8ToHex_uint8Array (bytes : List UInt8) :
    u8ToHex (.uint8Array bytes) = (bytes.map UInt8.toNat).flatMap Hex.pair := by
  rw [u8ToHex, List.flatMap_map]
  congr 1
  funext b
  exact Hex.takeLast_toDigits _

theorem toHex_eq (data : WcData) : toHex data = data.written.flatMap Hex.pair := by
  match data with
  | .string units => exact strToHex_eq units
  | .buffer (.uint8Array bytes) => exact u8ToHex_uint8Array bytes
  | .buffer (.arrayBuffer _) => exact strToHex_eq arrayBufferText

theorem fedBytes_eq (data : WcData) : fedBytes data = .ok (data.written.map UInt8.ofNat) := by
  rw [fedBytes, toHex_eq, hexDecode_of_wellFormed (Hex.wellFormed_flatMap_pair _),
    Hex.bytes_flatMap_pair]

/-- The functions of the script work on these bytes of a value, once its key, its initial vector and
its signature are read. -/
structure CryptoLib.Feeds (lib : CryptoLib) (data : WcData) (bytes : List UInt8) : Prop where
  digest : ∀ algorithm, lib.digest algorithm data = .ok (hexEncode (lib.hash algorithm bytes))
  sign : ∀ algorithm key keyBytes, hexDecode key.rawHex = .ok keyBytes →
    lib.sign algorithm key data = .ok (hexEncode (lib.hmac algorithm keyBytes bytes))
  verify : ∀ algorithm key keyBytes signature signatureBytes, hexDecode key.rawHex = .ok keyBytes →
    hexDecode signature = .ok signatureBytes →
    lib.verify algorithm key signature data =
      .ok (lib.hmac algorithm keyBytes bytes == signatureBytes)
  encrypt : ∀ mode key iv keyBytes ivBytes, hexDecode key.rawHex = .ok keyBytes →
    hexDecode (u8ToHex iv) = .ok ivBytes →
    lib.encryptData mode key iv data =
      match lib.encrypt mode keyBytes ivBytes bytes with
      | .error e => .error (.fails (e.message mode))
      | .ok ciphertext => .ok (hexEncode ciphertext)

theorem feeds_of_fedBytes {data : WcData} {bytes : List UInt8} (h : fedBytes data = .ok bytes) :
    lib.Feeds data bytes := by
  rw [fedBytes] at h
  constructor
  · intro algorithm
    rw [CryptoLib.digest, CryptoLib.wcDigest, h]
    rfl
  · intro algorithm key keyBytes hkey
    rw [CryptoLib.sign, CryptoLib.wcHmacSign, hkey, h]
    rfl
  · intro algorithm key keyBytes signature signatureBytes hkey hsignature
    rw [CryptoLib.verify, CryptoLib.wcHmacVerify, hkey, hsignature, h]
    rfl
  · intro mode key iv keyBytes ivBytes hkey hiv
    rw [CryptoLib.encryptData, CryptoLib.wcAesEncrypt, hkey, hiv, h]
    rfl

/-! ## Ciphers -/

/-- Decrypting gives back what was encrypted. -/
def CryptoLib.Correct (lib : CryptoLib) : Prop :=
  ∀ mode key iv data ciphertext, lib.encrypt mode key iv data = .ok ciphertext →
    lib.decrypt mode key iv ciphertext = .ok data

/-- The cipher takes the key, the nonce, initial vector or counter, and the bytes of the values. -/
structure CryptoLib.Supports (lib : CryptoLib) (mode : AesMode) (key : CryptoKey) (iv : Buffer)
    (values : Set WcData) : Prop where
  takes : ∃ keyBytes ivBytes, hexDecode key.rawHex = .ok keyBytes ∧
    hexDecode (u8ToHex iv) = .ok ivBytes ∧
    ∀ data ∈ values, ∀ bytes, fedBytes data = .ok bytes →
      ∃ ciphertext, lib.encrypt mode keyBytes ivBytes bytes = .ok ciphertext

/-- The content of the values comes back, and no two values of different content are hashed, signed
or encrypted as the same bytes. -/
structure KeepsContent (lib : CryptoLib) (mode : AesMode) (key : CryptoKey) (iv : Buffer)
    (values : Set WcData) : Prop where
  recovers : ∀ data ∈ values, ∃ text str, lib.encryptData mode key iv data = .ok text ∧
    lib.decryptText mode key iv text = .ok str ∧ str.map UInt16.toNat = data.content
  feeds : ∀ data ∈ values, ∃ bytes, fedBytes data = .ok bytes ∧ lib.Feeds data bytes
  determines : ∀ data ∈ values, ∀ data' ∈ values, fedBytes data = fedBytes data' →
    data.content = data'.content

theorem hexToStr_pair_append (n : ℕ) (hex : Str) :
    hexToStr (Hex.pair n ++ hex) = fromCharCode (parseHexInt (Hex.pair n)) :: hexToStr hex := rfl

/-- The text of pairs of digits is read as the numbers of the pairs. -/
theorem hexToStr_hexEncode (bytes : List UInt8) :
    (hexToStr (hexEncode bytes)).map UInt16.toNat = bytes.map UInt8.toNat := by
  rw [hexEncode_eq]
  induction bytes with
  | nil => rfl
  | cons b bytes ih =>
      have hhigh := Hex.digitValue_digitChar (Nat.mod_lt (b.toNat / 16) (show 16 > 0 by decide))
      have hlow := Hex.digitValue_digitChar (Nat.mod_lt b.toNat (show 16 > 0 by decide))
      have hparse : parseHexInt (Hex.pair b.toNat) = some b.toNat := by
        have hb := b.toNat_lt
        simp [parseHexInt, Hex.pair, hhigh, hlow]
        omega
      have hchar : (fromCharCode (some b.toNat)).toNat = b.toNat := by
        simp [fromCharCode]
      rw [List.map_cons, List.flatMap_cons, hexToStr_pair_append, hparse, List.map_cons, hchar, ih]

/-- What comes back is what was written, by its low bytes. -/
theorem decryptText_encryptData (hlib : lib.Correct) (hsupports : lib.Supports mode key iv values)
    {data : WcData} (hdata : data ∈ values) :
    ∃ text str, lib.encryptData mode key iv data = .ok text ∧
    lib.decryptText mode key iv text = .ok str ∧
      str.map UInt16.toNat = data.written.map (· % 256) := by
  obtain ⟨keyBytes, ivBytes, hkey, hiv, htakes⟩ := hsupports.takes
  have hfed := fedBytes_eq data
  obtain ⟨ciphertext, hencrypt⟩ := htakes data hdata _ hfed
  have hdecrypt := hlib _ _ _ _ _ hencrypt
  have hcipher : hexDecode (hexEncode ciphertext) = .ok ciphertext := by
    rw [hexDecode_of_wellFormed (wellFormed_hexEncode ciphertext), bytes_hexEncode]
  refine ⟨hexEncode ciphertext, hexToStr (hexEncode (data.written.map UInt8.ofNat)), ?_, ?_, ?_⟩
  · rw [fedBytes] at hfed
    rw [CryptoLib.encryptData, CryptoLib.wcAesEncrypt, hkey, hiv, hfed]
    simp only [Except.ok_bind, hencrypt]
  · rw [CryptoLib.decryptText, CryptoLib.wcAesDecrypt, hkey, hiv, hcipher]
    simp only [Except.ok_bind, hdecrypt]
    rfl
  · rw [hexToStr_hexEncode, List.map_map]
    rfl

/-! ## Content -/

/-- Every number of the content is a byte; an array buffer holds the text of its name. -/
def WcData.HasBytes : WcData → Prop
  | .string units => ∀ u ∈ units, u.toNat < 256
  | .buffer (.uint8Array _) => True
  | .buffer (.arrayBuffer bytes) => bytes.map UInt8.toNat = arrayBufferText.map UInt16.toNat

theorem map_mod_eq_self_iff (ns : List ℕ) : ns.map (· % 256) = ns ↔ ∀ n ∈ ns, n < 256 := by
  have hid : ns.map (· % 256) = ns ↔ ns.map (· % 256) = ns.map id := by rw [List.map_id]
  rw [hid, List.map_inj_left]
  exact forall₂_congr fun n _ => Nat.mod_eq_iff_lt (by decide)

theorem WcData.hasBytes_iff (data : WcData) :
    data.HasBytes ↔ data.written.map (· % 256) = data.content := by
  match data with
  | .string units =>
      rw [WcData.written, WcData.content, map_mod_eq_self_iff]
      simp [WcData.HasBytes]
      nofun
  | .buffer (.uint8Array bytes) =>
      rw [WcData.written, WcData.content, map_mod_eq_self_iff]
      · simp only [WcData.HasBytes, true_iff, List.forall_mem_map]
        exact fun b _ => b.toNat_lt
      · nofun
  | .buffer (.arrayBuffer bytes) =>
      have hname : (arrayBufferText.map UInt16.toNat).map (· % 256) =
          arrayBufferText.map UInt16.toNat := by decide
      rw [WcData.written, hname]
      exact eq_comm

/-- The content of values comes back, and is told apart by its bytes, exactly when the contents are
bytes. -/
theorem keepsContent_iff (hlib : lib.Correct) (hsupports : lib.Supports mode key iv values) :
    KeepsContent lib mode key iv values ↔ ∀ data ∈ values, data.HasBytes := by
  constructor
  · intro h data hdata
    obtain ⟨text, str, hencrypt, hdecrypt, hstr⟩ := h.recovers data hdata
    obtain ⟨text', str', hencrypt', hdecrypt', hstr'⟩ :=
      decryptText_encryptData hlib hsupports hdata
    cases hencrypt.symm.trans hencrypt'
    cases hdecrypt.symm.trans hdecrypt'
    exact data.hasBytes_iff.mpr (hstr'.symm.trans hstr)
  · intro h
    constructor
    · intro data hdata
      obtain ⟨text, str, hencrypt, hdecrypt, hstr⟩ := decryptText_encryptData hlib hsupports hdata
      exact ⟨text, str, hencrypt, hdecrypt, hstr.trans (data.hasBytes_iff.mp (h data hdata))⟩
    · exact fun data _ => ⟨_, fedBytes_eq data, feeds_of_fedBytes (fedBytes_eq data)⟩
    · intro data hdata data' hdata' hfed
      rw [fedBytes_eq, fedBytes_eq] at hfed
      have hbytes := congrArg (List.map UInt8.toNat) (Except.ok.inj hfed)
      rw [List.map_map, List.map_map] at hbytes
      rw [← data.hasBytes_iff.mp (h data hdata), ← data'.hasBytes_iff.mp (h data' hdata')]
      exact hbytes

/-! ## A counter cipher -/

/-- The first block of the key stream for the key and the counter of zeros. -/
def zeroKeyStream : List UInt8 :=
  [220, 149, 192, 120, 162, 64, 137, 137, 173, 72, 162, 20, 146, 132, 32, 135]

def firstBlock (mode : AesMode) (key iv data : List UInt8) : Except CipherError (List UInt8) :=
  match mode with
  | .ctr =>
      if key = List.replicate 32 0 ∧ iv = List.replicate 16 0 ∧
        data.length ≤ zeroKeyStream.length then
        .ok (List.zipWith (· ^^^ ·) data zeroKeyStream)
      else .error (.key [])
  | _ => .error (.key [])

/-- The counter mode on one block, with the key and the counter of zeros. -/
def firstBlockLib : CryptoLib where
  hash _ data := data
  hmac _ _ data := data
  encrypt := firstBlock
  decrypt := firstBlock

theorem zipWith_xor_zipWith_xor {data stream : List UInt8} (h : data.length ≤ stream.length) :
    List.zipWith (· ^^^ ·) (List.zipWith (· ^^^ ·) data stream) stream = data := by
  induction data generalizing stream with
  | nil => rfl
  | cons b data ih =>
      cases stream with
      | nil => nomatch h
      | cons k stream =>
          have hb : b ^^^ k ^^^ k = b := by rw [UInt8.xor_assoc, UInt8.xor_self, UInt8.xor_zero]
          rw [List.zipWith_cons_cons, List.zipWith_cons_cons, hb, ih (Nat.le_of_succ_le_succ h)]

theorem firstBlockLib_correct : firstBlockLib.Correct := by
  intro mode key iv data ciphertext h
  cases mode with
  | ctr =>
      simp only [firstBlockLib, firstBlock] at h ⊢
      split at h
      · rename_i hzero
        cases h
        rw [if_pos ⟨hzero.1, hzero.2.1, by simp⟩, zipWith_xor_zipWith_xor hzero.2.2]
      · nomatch h
  | gcm => nomatch h
  | cbc => nomatch h

theorem firstBlockLib_supports {values : Set WcData}
    (h : ∀ data ∈ values, data.written.length ≤ 16) :
    firstBlockLib.Supports .ctr (.import (.buffer (.uint8Array (List.replicate 32 0))))
      (.uint8Array (List.replicate 16 0)) values := by
  have hzeros (n : ℕ) : fedBytes (.buffer (.uint8Array (List.replicate n 0))) =
      .ok (List.replicate n 0) := by
    rw [fedBytes_eq]
    simp [WcData.written, WcData.content]
  refine ⟨List.replicate 32 0, List.replicate 16 0, hzeros 32, hzeros 16, ?_⟩
  intro data hdata bytes hbytes
  cases (fedBytes_eq data).symm.trans hbytes
  refine ⟨_, if_pos ⟨rfl, rfl, ?_⟩⟩
  rw [List.length_map]
  exact h data hdata

/-- A text of small code units, and a byte array. -/
theorem keepsContent_greeting :
    KeepsContent firstBlockLib .ctr (.import (.buffer (.uint8Array (List.replicate 32 0))))
        (.uint8Array (List.replicate 16 0)) {.string [104, 105], .buffer (.uint8Array [0, 255])} ↔
      ∀ data ∈ ({.string [104, 105], .buffer (.uint8Array [0, 255])} : Set WcData), data.HasBytes :=
  keepsContent_iff firstBlockLib_correct
    (firstBlockLib_supports (by simp [WcData.written, WcData.content]))

/-- A letter above the low bytes comes back as another, whose bytes are the same. -/
theorem not_keepsContent_macron :
    ¬∀ (lib : CryptoLib) (mode : AesMode) (key : CryptoKey) (iv : Buffer) (values : Set WcData),
      lib.Correct → lib.Supports mode key iv values → KeepsContent lib mode key iv values := by
  intro hall
  have hkeeps := hall _ _ _ _ {.string [257], .string [1]} firstBlockLib_correct
    (firstBlockLib_supports (by simp [WcData.written, WcData.content]))
  have hfed : fedBytes (.string [257]) = fedBytes (.string [1]) := by
    rw [fedBytes_eq, fedBytes_eq]
    rfl
  have hcontent := hkeeps.determines _ (by simp) _ (by simp) hfed
  exact absurd hcontent (by decide)

end K6Rs
