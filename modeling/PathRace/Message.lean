import PathRace.Basic
import PathRace.Fault

/-!
The messages two devices exchange on a path, as plaintext: a tag and fields of fixed length, or,
for payload, whatever follows the tag.
-/

namespace PathRace

inductive Message
  | hello (challenge : Challenge) (key : PublicKey)
  | authHello (response challenge : Challenge) (key : PublicKey)
  | auth (response : Challenge)
  | nominate
  | ulp (data : Bytes)
  deriving DecidableEq

namespace Message

def name : Message → String
  | hello .. => "hello"
  | authHello .. => "auth-hello"
  | auth _ => "auth"
  | nominate => "nominate"
  | ulp _ => "ulp"

def encode : Message → Bytes
  | hello challenge key => 1 :: (challenge.val ++ key.val)
  | authHello response challenge key => 2 :: (response.val ++ challenge.val ++ key.val)
  | auth response => 3 :: response.val
  | nominate => [4]
  | ulp data => 5 :: data

def decode : Bytes → Except EngineFault Message
  | [] => .error (.malformedFrame "empty message")
  | tag :: body =>
    match tag with
    | 1 =>
      match Octets.ofBytes? 16 (body.take 16), Octets.ofBytes? 32 (body.drop 16) with
      | some challenge, some key => .ok (hello challenge key)
      | _, _ => .error (.malformedFrame "invalid field length")
    | 2 =>
      match Octets.ofBytes? 16 (body.take 16), Octets.ofBytes? 16 ((body.drop 16).take 16),
        Octets.ofBytes? 32 (body.drop 32) with
      | some response, some challenge, some key => .ok (authHello response challenge key)
      | _, _, _ => .error (.malformedFrame "invalid auth-hello length")
    | 3 =>
      match Octets.ofBytes? 16 body with
      | some response => .ok (auth response)
      | none => .error (.malformedFrame "invalid field length")
    | 4 =>
      if body = [] then .ok nominate else .error (.malformedFrame "invalid nominate length")
    | 5 => .ok (ulp body)
    | _ => .error (.malformedFrame "unknown message tag")

end Message

end PathRace
