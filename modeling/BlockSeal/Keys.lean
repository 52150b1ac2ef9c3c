import BlockSeal.Error
import BlockSeal.Json.Shape

/-! # Keys and signatures as bytes and texts

What the engine takes in from outside as a key or a signature, with the refusals that it answers,
and how keys and signatures are shown. A secret key is never shown.
-/

set_option autoImplicit false

namespace BlockSeal

namespace SecretKey

def ofMaterial (material : Bytes) : Except Error SecretKey :=
  match derive material with
  | .ok key => .ok key
  | .error e => .error (.invalidState (.keyMaterial e))

def shown (_ : SecretKey) : String := "SecretKey(..)"

end SecretKey

namespace PublicKey

def ofBytes (l : Bytes) : Except Error PublicKey :=
  match decode l with
  | .ok key => .ok key
  | .error e => .error (.invalidState (.badPublicKey e))

def text (k : PublicKey) : String := Hex.text k.encode

def shown (k : PublicKey) : String := "PublicKey(" ++ k.text ++ ")"

def toJson (k : PublicKey) : Json := .ofString k.text

def ofJson? (j : Json) : Option PublicKey := do
  let s ← j.text?
  let bytes ← (Hex.decode s).toOption
  (decode bytes).toOption

end PublicKey

namespace Signature

def ofBytes (l : Bytes) : Except Error Signature :=
  match decode l with
  | .ok s => .ok s
  | .error e => .error (.malformedSeal (.badSignature e))

def shown (s : Signature) : String := "Signature(" ++ Hex.text s.encode ++ ")"

end Signature

end BlockSeal
