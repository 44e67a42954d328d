import PathRace.Bytes

/-!
The roles of the two devices, path numbers, and the sizes and defaults that both sides share.
-/

namespace PathRace

/-- A path has the same number on both devices. -/
abbrev PathId := UInt32

inductive Role
  | initiator
  | responder
  deriving DecidableEq, Repr

namespace Role

def peer : Role → Role
  | initiator => responder
  | responder => initiator

@[simp] theorem peer_peer (r : Role) : r.peer.peer = r := by cases r <;> rfl

def short : Role → String
  | initiator => "rid"
  | responder => "rrd"

def text : Role → String
  | initiator => "Initiator"
  | responder => "Responder"

end Role

inductive Phase
  | initializing
  | nominating
  | nominated
  | aborted
  deriving DecidableEq, Repr

namespace Phase

def isFinal : Phase → Bool
  | nominated | aborted => true
  | initializing | nominating => false

def short : Phase → String
  | initializing => "initializing"
  | nominating => "nominating"
  | nominated => "nominated"
  | aborted => "aborted"

def text : Phase → String
  | initializing => "Initializing"
  | nominating => "Nominating"
  | nominated => "Nominated"
  | aborted => "Aborted"

end Phase

/-- The secret that both devices hold before they meet. -/
abbrev AuthKey := Octets 32

abbrev Key := Octets 32

abbrev Nonce := Octets 24

abbrev PublicKey := Octets 32

abbrev Challenge := Octets 16

/-- Identifies a nominated path to both devices. -/
abbrev PathHash := Octets 32

namespace Render

/-- A record with its fields in braces; `..` stands for fields that are not shown. -/
def record (name : String) (fields : List (String × String)) (complete : Bool) : String :=
  let shown := fields.map fun (k, v) => k ++ ": " ++ v
  let shown := if complete then shown else shown ++ [".."]
  name ++ " \x7b " ++ ", ".intercalate shown ++ " \x7d"

def option (f : α → String) : Option α → String
  | none => "None"
  | some a => "Some(" ++ f a ++ ")"

def list (f : α → String) (l : List α) : String :=
  "[" ++ ", ".intercalate (l.map f) ++ "]"

def hexDigit (n : Nat) : Char := (Nat.toDigits 16 n).headD '0'

def hexByte (b : UInt8) : String :=
  String.ofList [hexDigit (b.toNat / 16), hexDigit (b.toNat % 16)]

def hex (b : Bytes) : String := String.join (b.map hexByte)

end Render

def AuthKey.text (_ : AuthKey) : String := "AuthenticationKey(..)"

def Key.text (_ : Key) : String := "FrameKey(..)"

/-- Shown by its first four bytes. -/
def PathHash.text (h : PathHash) : String :=
  "RoomPhraseHash(" ++ Render.hex (h.val.take 4) ++ "..)"

namespace Limit

def keySize : Nat := 32

def hashSize : Nat := 32

def nonceSize : Nat := 24

def tagSize : Nat := 16

def publicKeySize : Nat := 32

def challengeSize : Nat := 16

/-- Bytes of a frame's length prefix. -/
def lengthSize : Nat := 4

/-- The longest frame, without its length prefix. -/
def frame : Nat := 64 * 1024 * 1024

/-- The largest piece of a frame that is written to the nominated path at once. -/
def piece : Nat := 1024 * 1024

/-- Chunks that can wait between the paths and their consumer. -/
def slot : Nat := 1

def highWatermark : Nat := 2 * 1024 * 1024

def lowWatermark : Nat := 128 * 1024

/-- Milliseconds between two looks at a stalled backlog. -/
def pollInterval : Nat := 20

/-- Milliseconds that a path may take to connect. -/
def connectTimeout : Nat := 10000

/-- The default size of a pipe in bytes. -/
def pipe : Nat := 1024 * 1024

/-- Milliseconds that sending the close message may take. -/
def farewell : Nat := 1000

end Limit

end PathRace
