import K6Rs.Library.Hex
import K6Rs.Library.JsString

/-! The Web Crypto functions: the native ones take and return hexadecimal text, which the shim makes
of the data. -/

namespace K6Rs

/-- How a native function ends that returns nothing. -/
inductive WcError where
  | panic
  | fails (message : Str)
deriving DecidableEq

/-! ## The native functions -/

def hexEncode (bytes : List UInt8) : Str :=
  bytes.flatMap fun b => List.leftpad 2 '0' (Nat.toDigits 16 b.toNat)

/-- `u8::from_str_radix` for radix 16. -/
def u8FromStrRadix16 (s : Str) : Option UInt8 :=
  let digits : Option Str :=
    match s with
    | [] => none
    | ['+'] | ['-'] => none
    | '+' :: digits => some digits
    | digits => some digits
  digits.bind fun digits =>
    (digits.foldlM (fun value c => do
      let value := 16 * value + (← Hex.digitValue c)
      if value < 256 then some value else none) 0).map UInt8.ofNat

/-- The byte that `hexDecode` reads at an offset. -/
def hexDecodeAt (s : Str) (i : ℕ) : Except WcError UInt8 :=
  match Str.byteSlice s i (i + 2) with
  | some pair => .ok ((u8FromStrRadix16 pair).getD 0)
  | none => .error .panic

def hexDecode (s : Str) : Except WcError (List UInt8) :=
  (List.range' 0 ((Str.utf8Len s + 1) / 2) 2).mapM (hexDecodeAt s)

/-- The hashes that `__wc_hmac_sign` and `__wc_hmac_verify` take. -/
inductive HashAlgorithm where
  | sha1
  | sha256
  | sha384
  | sha512

/-- `__wc_digest` takes MD5 as well. -/
inductive DigestAlgorithm where
  | md5
  | sha (algorithm : HashAlgorithm)

inductive AesMode where
  | gcm
  | cbc
  | ctr

def AesMode.name : AesMode → Str
  | .gcm => "AES-GCM".toList
  | .cbc => "AES-CBC".toList
  | .ctr => "AES-CTR".toList

/-- Where a cipher fails, with the message of its library. -/
inductive CipherError where
  | key (e : Str)
  | nonce (e : Str)
  | encrypt (e : Str)
  | decrypt (e : Str)

def CipherError.message (mode : AesMode) : CipherError → Str
  | .key e => mode.name ++ " key error: ".toList ++ e
  | .nonce e => mode.name ++ " nonce error: ".toList ++ e
  | .encrypt e => mode.name ++ " encrypt error: ".toList ++ e
  | .decrypt e => mode.name ++ " decrypt error: ".toList ++ e

/-- The hashes, codes and ciphers on bytes. -/
structure CryptoLib where
  hash : DigestAlgorithm → List UInt8 → List UInt8
  /-- By the key, then the data. -/
  hmac : HashAlgorithm → List UInt8 → List UInt8 → List UInt8
  /-- By the key, the nonce, initial vector or counter, and the data. -/
  encrypt : AesMode → List UInt8 → List UInt8 → List UInt8 → Except CipherError (List UInt8)
  decrypt : AesMode → List UInt8 → List UInt8 → List UInt8 → Except CipherError (List UInt8)

namespace CryptoLib

variable (lib : CryptoLib)

def wcDigest (algorithm : DigestAlgorithm) (dataHex : Str) : Except WcError Str := do
  let data ← hexDecode dataHex
  return hexEncode (lib.hash algorithm data)

def wcHmacSign (algorithm : HashAlgorithm) (keyHex dataHex : Str) : Except WcError Str := do
  let key ← hexDecode keyHex
  let data ← hexDecode dataHex
  return hexEncode (lib.hmac algorithm key data)

def wcHmacVerify (algorithm : HashAlgorithm) (keyHex sigHex dataHex : Str) :
    Except WcError Bool := do
  let key ← hexDecode keyHex
  let sig ← hexDecode sigHex
  let data ← hexDecode dataHex
  return lib.hmac algorithm key data == sig

def wcAesEncrypt (mode : AesMode) (keyHex ivHex dataHex : Str) : Except WcError Str := do
  let key ← hexDecode keyHex
  let iv ← hexDecode ivHex
  let data ← hexDecode dataHex
  match lib.encrypt mode key iv data with
  | .error e => .error (.fails (e.message mode))
  | .ok ciphertext => .ok (hexEncode ciphertext)

def wcAesDecrypt (mode : AesMode) (keyHex ivHex dataHex : Str) : Except WcError Str := do
  let key ← hexDecode keyHex
  let iv ← hexDecode ivHex
  let data ← hexDecode dataHex
  match lib.decrypt mode key iv data with
  | .error e => .error (.fails (e.message mode))
  | .ok plaintext => .ok (hexEncode plaintext)

end CryptoLib

/-! ## The script -/

/-- `String(data)` of an array buffer. -/
def arrayBufferText : JsString := .ofBasic "[object ArrayBuffer]".toList

inductive Buffer where
  | uint8Array (bytes : List UInt8)
  | arrayBuffer (bytes : List UInt8)

inductive WcData where
  | string (units : JsString)
  | buffer (buffer : Buffer)

def strToHex (str : JsString) : Str :=
  str.flatMap fun code => Hex.takeLast 2 ('0' :: Nat.toDigits 16 code.toNat)

/-- An array buffer has no length, so the loop does not run. -/
def u8ToHex : Buffer → Str
  | .uint8Array arr => arr.flatMap fun b => Hex.takeLast 2 ('0' :: Nat.toDigits 16 b.toNat)
  | .arrayBuffer _ => []

def toHex : WcData → Str
  | .string units => strToHex units
  | .buffer (.uint8Array arr) => u8ToHex (.uint8Array arr)
  | .buffer (.arrayBuffer _) => strToHex arrayBufferText

/-- `parseInt(s, 16)` of at most two characters of a hexadecimal text; none is a number that is
not. -/
def parseHexInt (s : Str) : Option ℕ :=
  match s.takeWhile fun c => (Hex.digitValue c).isSome with
  | [] => none
  | digits => some (digits.foldl (fun value c => 16 * value + (Hex.digitValue c).getD 0) 0)

/-- `String.fromCharCode` of a number, 0 when it is none. -/
def fromCharCode (code : Option ℕ) : UInt16 := .ofNat (code.getD 0)

def hexToStr : Str → JsString
  | [] => []
  | [c] => [fromCharCode (parseHexInt [c])]
  | c :: d :: hex => fromCharCode (parseHexInt [c, d]) :: hexToStr hex

structure CryptoKey where
  rawHex : Str

/-- `importKey` of a raw key. -/
def CryptoKey.import (keyData : WcData) : CryptoKey := ⟨toHex keyData⟩

namespace CryptoLib

variable (lib : CryptoLib)

def digest (algorithm : DigestAlgorithm) (data : WcData) : Except WcError Str :=
  lib.wcDigest algorithm (toHex data)

def sign (algorithm : HashAlgorithm) (key : CryptoKey) (data : WcData) : Except WcError Str :=
  lib.wcHmacSign algorithm key.rawHex (toHex data)

/-- `verify` of a signature that is a string. -/
def verify (algorithm : HashAlgorithm) (key : CryptoKey) (signature : Str) (data : WcData) :
    Except WcError Bool :=
  lib.wcHmacVerify algorithm key.rawHex signature (toHex data)

def encryptData (mode : AesMode) (key : CryptoKey) (iv : Buffer) (data : WcData) :
    Except WcError Str :=
  lib.wcAesEncrypt mode key.rawHex (u8ToHex iv) (toHex data)

/-- `decrypt` of a string. -/
def decryptText (mode : AesMode) (key : CryptoKey) (iv : Buffer) (data : Str) :
    Except WcError JsString :=
  (lib.wcAesDecrypt mode key.rawHex (u8ToHex iv) data).map hexToStr

end CryptoLib

end K6Rs
