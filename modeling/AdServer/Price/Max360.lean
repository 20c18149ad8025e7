import AdServer.Price.Baidu

/-!
`max360_price_decode` and `kupai_price_decode`. The two have one body, with keys in hexadecimal,
and read the price differently: as an integer in network order that is returned through a
`double`, and as the bytes of a `double`. The Base64 iterators are a parameter that may throw.
-/
namespace AdServer.Price

open ByteOrder SealedRecord

/-- The digit of a character; `none` is the `PriceDecodeException`. -/
def toDigit (ch : UInt8) : Option Nat :=
  if byte '0' ≤ ch ∧ ch ≤ byte '9' then some (ch.toNat - 48)
  else if byte 'a' ≤ ch ∧ ch ≤ byte 'f' then some (ch.toNat - 87)
  else if byte 'A' ≤ ch ∧ ch ≤ byte 'F' then some (ch.toNat - 55)
  else none

def hexPairs : Bytes → Option Bytes
  | high :: low :: rest => do
    let h ← toDigit high
    let l ← toDigit low
    let out ← hexPairs rest
    return UInt8.ofNat (h * 16 ||| l) :: out
  | _ => some []

def decodeHex (data : Bytes) : Except Fault Bytes :=
  if data.length % 2 ≠ 0 then .error .exception
  else (hexPairs data).elim (.error .exception) .ok

/-- `hmac` with `HmacSHA1`: the code at the start of `EVP_MAX_MD_SIZE` bytes. -/
def hmacOutput (hmac : Hmac) (data key : Bytes) : Bytes := hmac.mac key data ++ List.replicate 44 0

def xorBytes (bytes1 bytes2 : Bytes) (length : Nat) : Bytes :=
  List.zipWith (· ^^^ ·) (bytes1.take length) (bytes2.take length)

/-- The price is unmasked and its signature checked. -/
def checkSigned (hmac : Hmac) (toPrice : Bytes → Int) (decKey iKey iv enPrice integrity : Bytes) :
    Except Fault Int := do
  let deByte := hmacOutput hmac iv (← decodeHex decKey)
  let decPrice := xorBytes enPrice deByte 8
  let oIkey := hmacOutput hmac (decPrice ++ iv) (← decodeHex iKey)
  if integrity = oIkey.take 4 then .ok (toPrice decPrice) else .error .exception

/-- `decodePrice` of both exchanges, with what they make of the eight bytes of the price. -/
def decodeSigned (hmac : Hmac) (base64 : Bytes → Option Bytes) (toPrice : Bytes → Int)
    (decKey iKey eEnc : Bytes) : Except Fault Int := do
  let eSrc ← (base64 (normalEncoded eEnc)).elim (.error .exception) .ok
  let iv ← bytesAt eSrc 0 16
  let enPrice ← bytesAt eSrc 16 8
  let integrity ← bytesAt eSrc 24 4
  checkSigned hmac toPrice decKey iKey iv enPrice integrity

/-- The exceptions are caught and give 0. -/
def catchPrice : Except Fault Int → Except Fault Int
  | .error .exception => .ok 0
  | result => result

/-- The conversion to `int64_t`, with what the processor gives outside of its range. -/
def toInt64 (n : Int) : Int := if -2 ^ 63 ≤ n ∧ n < 2 ^ 63 then n else -2 ^ 63

/-- The nearest `double`, and the even one of two. -/
def roundToDouble (n : Nat) : Nat :=
  let step := 2 ^ (Nat.log2 n - 52)
  let rest := n % step
  if step < 2 * rest ∨ 2 * rest = step ∧ n / step % 2 = 1 then (n / step + 1) * step
  else n / step * step

/-- The price of 360: an `int64_t` that becomes a `double` and an `int64_t` again. -/
def max360Price (decPrice : Bytes) : Int :=
  let price := (BitVec.ofNat 64 (value decPrice.reverse)).toInt
  toInt64 (price.sign * roundToDouble price.natAbs)

/-- The price of kupai: the whole part of the `double` with these bytes. -/
def kupaiPrice (decPrice : Bytes) : Int :=
  let bits := value decPrice
  let exponent := bits / 2 ^ 52 % 2 ^ 11
  let significand := 2 ^ 52 + bits % 2 ^ 52
  let magnitude : Nat :=
    if exponent = 0 then 0
    else if exponent < 1075 then significand / 2 ^ (1075 - exponent)
    else significand * 2 ^ (exponent - 1075)
  if exponent = 2047 then -2 ^ 63
  else toInt64 (if bits / 2 ^ 63 = 1 then -magnitude else magnitude)

def max360DecKey : Bytes := bytes "890ec02651413eb78f4569c76821397d7323ca10538d46b17ddbb08a5ac5c343"

def max360IKey : Bytes := bytes "f564fb940597adf219c59dbff5025d206a32a9ab3d94f68def0a793ccc397e1a"

def max360PriceDecode (hmac : Hmac) (base64 : Bytes → Option Bytes) (input : Bytes) :
    Except Fault Int :=
  catchPrice (decodeSigned hmac base64 max360Price max360DecKey max360IKey input)

def kupaiDecKey : Bytes := bytes "5a88b012c4d5aa79f8e852ba6da099d989681ace"

def kupaiIKey : Bytes := bytes "6606f210b823e2688faec7947e9d82aa0c1f65fa"

def kupaiPriceDecode (hmac : Hmac) (base64 : Bytes → Option Bytes) (input : Bytes) :
    Except Fault Int :=
  catchPrice (decodeSigned hmac base64 kupaiPrice kupaiDecKey kupaiIKey input)

section
variable {hmac : Hmac} {base64 : Bytes → Option Bytes} {toPrice : Bytes → Int}
variable {decKey iKey key key' input record : Bytes}

theorem decodeSigned_some (h : base64 (normalEncoded input) = some record) :
    decodeSigned hmac base64 toPrice decKey iKey input =
      if 28 ≤ record.length then
        checkSigned hmac toPrice decKey iKey (record.take 16) ((record.drop 16).take 8)
          ((record.drop 24).take 4)
      else .error .outside := by
  rw [decodeSigned, h]
  exact bytesAt_record record _

end

example : (decodeHex max360DecKey).toBool ∧ roundToDouble (2 ^ 53 + 1) = 2 ^ 53 := by decide

end AdServer.Price
