import Bridget.Foundation.Text
import Bridget.Journal.Reader

/-!
# Messages of the attach relay

What the relay of a wrapper tells the daemon about the journal, and the JSON text of a
fragment, whose length decides how much of an event a frame can carry.
-/

namespace Bridget.Attach

open Foundation Journal

def maxAttachSerializedFrameBytes : Nat := 256 * 1024

def maxAttachFragmentBytes : Nat := 190 * 1024

structure Fragment where
  (seq offset : Nat)
  finalFragment : Bool
  bytes : Bytes
  deriving DecidableEq

/-- What a view asks to see of the journal before it follows it. -/
inductive AttachWindow where
  | seq (first : Nat)
  | tail (count : Nat)
  | today
  | date (date : String)
  deriving DecidableEq

inductive AttachRefusal where
  | invalidDate | futureDate | dateOutsideRetention
  deriving DecidableEq

inductive WrapperToDaemon where
  | subscribed (subscriptionId : String)
  | attachRejected (subscriptionId : Option String) (reason : AttachRefusal)
  | journalFragment (subscriptionId : String) (fragment : Fragment)
  | liveJournalFragment (fragment : Fragment)
  | snapshotCaughtUp (subscriptionId : String) (throughSeq : Option Nat)
  | gap (subscriptionId : String) (fromSeq toSeq : Nat) (reason : Option String)
  | journalReadError (subscriptionId : String) (line offset : Nat) (reason : String)
  | ended (subscriptionId : String) (reason : String)
  deriving DecidableEq

def base64Table : Bytes := utf8 "ABCDEFGHIJKLMNOPQRSTUVWXYZabcdefghijklmnopqrstuvwxyz0123456789+/"

def base64Digit (value shift : Nat) : UInt8 := base64Table.getD (value / 2 ^ shift % 64) 0

def base64 : Bytes → Bytes
  | [] => []
  | [a] =>
    let value := a.toNat * 2 ^ 16
    [base64Digit value 18, base64Digit value 12, 0x3d, 0x3d]
  | [a, b] =>
    let value := a.toNat * 2 ^ 16 + b.toNat * 2 ^ 8
    [base64Digit value 18, base64Digit value 12, base64Digit value 6, 0x3d]
  | a :: b :: c :: rest =>
    let value := a.toNat * 2 ^ 16 + b.toNat * 2 ^ 8 + c.toNat
    base64Digit value 18 :: base64Digit value 12 :: base64Digit value 6 ::
      base64Digit value 0 :: base64 rest

def hexDigit (n : Nat) : UInt8 := (utf8 "0123456789abcdef").getD n 0

def jsonEscape (byte : UInt8) : Bytes :=
  if byte = 0x22 then utf8 "\\\""
  else if byte = 0x5c then utf8 "\\\\"
  else if byte = 0x08 then utf8 "\\b"
  else if byte = 0x0c then utf8 "\\f"
  else if byte = 0x0a then utf8 "\\n"
  else if byte = 0x0d then utf8 "\\r"
  else if byte = 0x09 then utf8 "\\t"
  else if byte < 0x20 then
    utf8 "\\u00" ++ [hexDigit (byte.toNat / 16), hexDigit (byte.toNat % 16)]
  else [byte]

def jsonString (text : Bytes) : Bytes := [0x22] ++ text.flatMap jsonEscape ++ [0x22]

def jsonBool (value : Bool) : Bytes := if value then utf8 "true" else utf8 "false"

def Fragment.members (fragment : Fragment) : Bytes :=
  utf8 "\"seq\":" ++ decimal fragment.seq ++ utf8 ",\"offset\":" ++ decimal fragment.offset ++
    utf8 ",\"final\":" ++ jsonBool fragment.finalFragment ++
    utf8 ",\"bytes\":" ++ jsonString (base64 fragment.bytes) ++ utf8 "\x7d"

def encodeJournalFragment (subscriptionId : String) (fragment : Fragment) : Bytes :=
  utf8 "\x7b\"type\":\"JournalFragment\",\"subscription_id\":" ++
    jsonString (utf8 subscriptionId) ++ utf8 "," ++ fragment.members

def encodeLiveJournalFragment (fragment : Fragment) : Bytes :=
  utf8 "\x7b\"type\":\"LiveJournalFragment\"," ++ fragment.members

def fitsFrame (subscriptionId : String) (fragment : Fragment) : Bool :=
  (encodeJournalFragment subscriptionId fragment).length ≤ maxAttachSerializedFrameBytes

def fitsLiveFrame (fragment : Fragment) : Bool :=
  (encodeLiveJournalFragment fragment).length ≤ maxAttachSerializedFrameBytes

end Bridget.Attach
