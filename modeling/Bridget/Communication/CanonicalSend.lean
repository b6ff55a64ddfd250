import Bridget.Core.Message
import Bridget.Foundation.Wire

/-!
# The canonical bytes of a send

A send is identified by the bytes of what was published. Its fields are written one after the
other with their lengths; groups of fields that older clients did not have are left out when
they are empty, without a mark in their place.
-/

namespace Bridget.Communication

open Foundation List Function

inductive MessageIntent where
  | queueOnly | triggerTurn | steerCurrent | interruptAndStart | controlOnly

structure ThreadNotice where
  version : UInt16
  threadId : String
  (throughSeq generation : UInt64)

structure SentMessage extends BridgetMessage where
  hops : Int32
  deadlineAt : Option UInt64
  origin : Option MessageOrigin
  intent : Option MessageIntent
  references : List String
  threadNotice : Option ThreadNotice
  crossProjectReason : Option String

def canonicalField (value : Bytes) : Bytes := toBeBytes 8 value.length ++ value

def canonicalOption {α : Type} [ToString α] : Option α → Bytes
  | some value => 1 :: canonicalField (utf8 (toString value))
  | none => [0]

def originByte : Option MessageOrigin → UInt8
  | none => 0
  | some .human => 1
  | some .agent => 2
  | some .routine => 3
  | some .system => 4

def intentByte : Option MessageIntent → UInt8
  | none => 0
  | some .queueOnly => 1
  | some .triggerTurn => 2
  | some .steerCurrent => 3
  | some .interruptAndStart => 4
  | some .controlOnly => 5

variable (message : SentMessage)

def canonicalMessageControl : Bytes :=
  if message.origin = none ∧ message.intent = none ∧ message.references = [] then []
  else
    0xff :: originByte message.origin :: intentByte message.intent ::
      (canonicalField (toBeBytes 8 message.references.length) ++
        message.references.flatMap fun reference => canonicalField (utf8 reference))

def canonicalThreadNotice : Bytes :=
  match message.threadNotice with
  | none => []
  | some notice =>
    utf8 "bridget/thread-notice/v1\x00" ++ canonicalField (toBeBytes 2 notice.version.toNat) ++
      canonicalField (utf8 notice.threadId) ++
      canonicalField (toBeBytes 8 notice.throughSeq.toNat) ++
      canonicalField (toBeBytes 8 notice.generation.toNat)

def canonicalReason : Bytes :=
  match message.crossProjectReason with
  | none => []
  | some reason => utf8 "bridget/cross-project/v1\x00" ++ canonicalField (utf8 reason)

def canonicalSend (issuerScope messageId : String) (message : SentMessage) (issuedAt : Int64) :
    Bytes :=
  utf8 "bridget/client-send/v1\x00" ++ canonicalField (utf8 issuerScope) ++
    canonicalField (utf8 messageId) ++ canonicalField (utf8 message.toAgent) ++
    canonicalField (utf8 message.body) ++ [if message.reply then 1 else 0] ++
    canonicalField (toBeBytes 4 message.hops.toBitVec.toNat) ++
    canonicalOption message.deadlineAt ++ canonicalOption message.inReplyTo ++
    canonicalMessageControl message ++ canonicalField (toBeBytes 8 issuedAt.toBitVec.toNat) ++
    canonicalThreadNotice message ++ canonicalReason message

def Short (value : Bytes) : Prop := value.length < 2 ^ 64
  deriving Decidable

theorem readable_canonicalField : Readable canonicalField Short := by
  intro _ _ _ _ ha hb h
  obtain ⟨hlength, hvalue⟩ := readable_toBeBytes 8 ha hb h
  exact append_inj hvalue hlength

theorem readable_text :
    Readable (fun text => canonicalField (utf8 text)) fun text => Short (utf8 text) := by
  intro _ _ _ _ ha hb h
  exact (readable_canonicalField ha hb h).imp_left (utf8_injective ·)

theorem readable_number {width : Nat} (hwidth : width < 2 ^ 64) :
    Readable (fun value => canonicalField (toBeBytes width value))
      fun value => value < 256 ^ width := by
  intro a b _ _ ha hb h
  have hshort : ∀ value, Short (toBeBytes width value) := by
    intro value
    rwa [Short, length_toBeBytes]
  obtain ⟨hvalue, hrest⟩ := readable_canonicalField (hshort a) (hshort b) h
  exact ⟨toBeBytes_inj ha hb hvalue, hrest⟩

theorem readable_canonicalOption {α : Type} [ToString α]
    (hinj : Injective (toString : α → String)) :
    Readable canonicalOption fun value : Option α => ∀ a ∈ value, Short (utf8 (toString a)) := by
  intro a b _ _ ha hb h
  cases a with
  | none =>
    cases b with
    | none => exact ⟨rfl, append_cancel_left h⟩
    | some => cases (cons.inj h).1
  | some a =>
    cases b with
    | none => cases (cons.inj h).1
    | some b =>
      obtain ⟨hvalue, hrest⟩ := readable_text (ha a rfl) (hb b rfl) (cons.inj h).2
      exact ⟨congrArg some (hinj hvalue), hrest⟩

theorem toString_injective : Injective (toString : UInt64 → String) := by
  intro a b h
  have hdigits : Nat.toDigits 10 a.toNat = Nat.toDigits 10 b.toNat := by
    change a.toNat.repr = b.toNat.repr at h
    rwa [Nat.repr_eq_ofList_toDigits, Nat.repr_eq_ofList_toDigits, String.ofList_inj] at h
  have hvalue := congrArg (Nat.ofDigitChars 10 · 0) hdigits
  simp only [Nat.ofDigitChars_ten_toDigits] at hvalue
  exact UInt64.toNat_inj.mp hvalue

theorem utf8ByteSize_repr_le {n digits : Nat} (h : n < 10 ^ (digits + 1)) :
    n.repr.utf8ByteSize ≤ 4 * (digits + 1) := by
  induction digits generalizing n with
  | zero =>
    rw [Nat.repr_of_lt (by simpa using h), String.utf8ByteSize_singleton]
    exact Char.utf8Size_le_four _
  | succ _ ih =>
    by_cases hsmall : n < 10
    · rw [Nat.repr_of_lt hsmall, String.utf8ByteSize_singleton]
      have := Char.utf8Size_le_four n.digitChar
      omega
    rw [Nat.repr_of_ge (Nat.le_of_not_lt hsmall), String.utf8ByteSize_append,
      String.utf8ByteSize_singleton]
    have hhigh := @ih (n / 10) (by omega)
    have hlast := Char.utf8Size_le_four (n % 10).digitChar
    omega

theorem short_toString (n : UInt64) : Short (utf8 (toString n)) := by
  have hn := n.toNat_lt
  have hsize : n.toNat.repr.utf8ByteSize ≤ 4 * 20 := utf8ByteSize_repr_le (by omega)
  change n.toNat.repr.utf8ByteSize < 2 ^ 64
  omega

theorem originByte_injective : Injective originByte := by
  intro a b h
  rcases a with _ | _ | _ <;> rcases b with _ | _ | _ <;> first | rfl | cases h

theorem intentByte_injective : Injective intentByte := by
  intro a b h
  rcases a with _ | _ | _ <;> rcases b with _ | _ | _ <;> first | rfl | cases h

/-- A field of eight bytes begins with a zero, which no control group does. -/
theorem canonicalField_eight_ne (value : Nat) (rest control : Bytes) :
    canonicalField (toBeBytes 8 value) ++ rest ≠ 0xff :: control := by
  rw [canonicalField, length_toBeBytes]
  intro h
  cases (cons.inj h).1

/-- What the lengths of a message must be for its fields to be told apart. -/
structure Encodable (issuerScope messageId : String) (message : SentMessage) : Prop where
  issuerScope : Short (utf8 issuerScope)
  messageId : Short (utf8 messageId)
  toAgent : Short (utf8 message.toAgent)
  body : Short (utf8 message.body)
  inReplyTo : ∀ parent ∈ message.inReplyTo, Short (utf8 parent)
  referenceCount : message.references.length < 2 ^ 64
  references : ∀ reference ∈ message.references, Short (utf8 reference)
  threadId : ∀ notice ∈ message.threadNotice, Short (utf8 notice.threadId)
  crossProjectReason : ∀ reason ∈ message.crossProjectReason, Short (utf8 reason)

section

variable {issuerScope issuerScope' messageId messageId' : String} {message message' : SentMessage}
  {rest rest' : Bytes}

theorem canonicalMessageControl_inj {n n' : Nat} (hm : Encodable issuerScope messageId message)
    (hm' : Encodable issuerScope' messageId' message')
    (h : canonicalMessageControl message ++ (canonicalField (toBeBytes 8 n) ++ rest) =
      canonicalMessageControl message' ++ (canonicalField (toBeBytes 8 n') ++ rest')) :
    (message.origin = message'.origin ∧ message.intent = message'.intent ∧
      message.references = message'.references) ∧
        canonicalField (toBeBytes 8 n) ++ rest = canonicalField (toBeBytes 8 n') ++ rest' := by
  unfold canonicalMessageControl at h
  split at h
  next hempty =>
    split at h
    next hempty' =>
      obtain ⟨horigin, hintent, hreferences⟩ := hempty
      obtain ⟨horigin', hintent', hreferences'⟩ := hempty'
      refine ⟨⟨?_, ?_, ?_⟩, h⟩
      · rw [horigin, horigin']
      · rw [hintent, hintent']
      · rw [hreferences, hreferences']
    · exact absurd h (canonicalField_eight_ne _ _ _)
  · split at h
    · exact absurd h.symm (canonicalField_eight_ne _ _ _)
    simp only [cons_append, cons.injEq, append_assoc, true_and] at h
    obtain ⟨horigin, hintent, h⟩ := h
    obtain ⟨hcount, h⟩ := readable_number (by decide) hm.referenceCount hm'.referenceCount h
    obtain ⟨hreferences, hrest⟩ := readable_text.flatMap hcount hm.references hm'.references h
    exact ⟨⟨originByte_injective horigin, intentByte_injective hintent, hreferences⟩, hrest⟩

theorem canonicalReason_inj (hm : Encodable issuerScope messageId message)
    (hm' : Encodable issuerScope' messageId' message')
    (h : canonicalReason message = canonicalReason message') :
    message.crossProjectReason = message'.crossProjectReason := by
  have hshort := hm.crossProjectReason
  have hshort' := hm'.crossProjectReason
  unfold canonicalReason at h
  cases hreason : message.crossProjectReason with
  | none =>
    cases hreason' : message'.crossProjectReason with
    | none => rfl
    | some =>
      rw [hreason, hreason'] at h
      cases (append_eq_nil_iff.mp h.symm).1
  | some =>
    cases hreason' : message'.crossProjectReason with
    | none =>
      rw [hreason, hreason'] at h
      cases (append_eq_nil_iff.mp h).1
    | some =>
      rw [hreason, hreason'] at h
      have hfield := congrArg (· ++ []) (append_cancel_left h)
      exact congrArg some (readable_text (hshort _ hreason) (hshort' _ hreason') hfield).1

/-- The domains of the two groups at the end differ, so a reason is no notice. -/
theorem canonicalReason_ne_notice (text : Bytes) :
    canonicalReason message ≠ utf8 "bridget/thread-notice/v1\x00" ++ text := by
  unfold canonicalReason
  split
  · intro h
    cases (append_eq_nil_iff.mp h.symm).1
  · intro h
    have hdomains := (append_inj h (by decide +kernel)).1
    revert hdomains
    decide +kernel

theorem readable_threadNotice :
    Readable (fun notice : ThreadNotice =>
        canonicalField (toBeBytes 2 notice.version.toNat) ++
          canonicalField (utf8 notice.threadId) ++
          canonicalField (toBeBytes 8 notice.throughSeq.toNat) ++
          canonicalField (toBeBytes 8 notice.generation.toNat))
      fun notice => Short (utf8 notice.threadId) := by
  intro a b _ _ ha hb h
  simp only [append_assoc] at h
  obtain ⟨hversion, h⟩ := readable_number (by decide) a.version.toNat_lt b.version.toNat_lt h
  obtain ⟨hthread, h⟩ := readable_text ha hb h
  obtain ⟨hthrough, h⟩ := readable_number (by decide) a.throughSeq.toNat_lt b.throughSeq.toNat_lt h
  obtain ⟨hgeneration, hrest⟩ :=
    readable_number (by decide) a.generation.toNat_lt b.generation.toNat_lt h
  obtain ⟨_, _, _, _⟩ := a
  obtain ⟨_, _, _, _⟩ := b
  cases UInt16.toNat_inj.mp hversion
  cases hthread
  cases UInt64.toNat_inj.mp hthrough
  cases UInt64.toNat_inj.mp hgeneration
  exact ⟨rfl, hrest⟩

theorem canonicalThreadNotice_inj (hm : Encodable issuerScope messageId message)
    (hm' : Encodable issuerScope' messageId' message')
    (h : canonicalThreadNotice message ++ canonicalReason message =
      canonicalThreadNotice message' ++ canonicalReason message') :
    message.threadNotice = message'.threadNotice ∧
      message.crossProjectReason = message'.crossProjectReason := by
  have hshort := hm.threadId
  have hshort' := hm'.threadId
  unfold canonicalThreadNotice at h
  cases hnotice : message.threadNotice with
  | none =>
    cases hnotice' : message'.threadNotice with
    | none =>
      rw [hnotice, hnotice'] at h
      exact ⟨rfl, canonicalReason_inj hm hm' h⟩
    | some =>
      rw [hnotice, hnotice'] at h
      exact absurd h (canonicalReason_ne_notice _)
  | some =>
    cases hnotice' : message'.threadNotice with
    | none =>
      rw [hnotice, hnotice'] at h
      exact absurd h.symm (canonicalReason_ne_notice _)
    | some =>
      rw [hnotice, hnotice'] at h
      simp only [append_assoc] at h
      have hrest := append_cancel_left h
      simp only [← append_assoc] at hrest
      obtain ⟨hsame, hreason⟩ := readable_threadNotice (hshort _ hnotice) (hshort' _ hnotice') hrest
      exact ⟨congrArg some hsame, canonicalReason_inj hm hm' hreason⟩

end

/-- Two sends have the same bytes exactly when they agree on what was published. -/
theorem canonicalSend_eq_iff (issuerScope issuerScope' messageId messageId' : String)
    (message message' : SentMessage) (issuedAt issuedAt' : Int64)
    (hm : Encodable issuerScope messageId message)
    (hm' : Encodable issuerScope' messageId' message') :
    canonicalSend issuerScope messageId message issuedAt =
        canonicalSend issuerScope' messageId' message' issuedAt' ↔
      issuerScope = issuerScope' ∧ messageId = messageId' ∧ issuedAt = issuedAt' ∧
        message.toAgent = message'.toAgent ∧ message.body = message'.body ∧
        message.reply = message'.reply ∧ message.hops = message'.hops ∧
        message.deadlineAt = message'.deadlineAt ∧ message.inReplyTo = message'.inReplyTo ∧
        message.origin = message'.origin ∧ message.intent = message'.intent ∧
        message.references = message'.references ∧
        message.threadNotice = message'.threadNotice ∧
        message.crossProjectReason = message'.crossProjectReason := by
  constructor
  · intro h
    simp only [canonicalSend, append_assoc] at h
    obtain ⟨hscope, h⟩ := readable_text hm.issuerScope hm'.issuerScope (append_cancel_left h)
    obtain ⟨hid, h⟩ := readable_text hm.messageId hm'.messageId h
    obtain ⟨hto, h⟩ := readable_text hm.toAgent hm'.toAgent h
    obtain ⟨hbody, h⟩ := readable_text hm.body hm'.body h
    have hbyte : Readable (fun reply : Bool => [if reply then (1 : UInt8) else 0]) fun _ => True :=
      .of_length (fun _ _ => rfl) (by decide)
    obtain ⟨hreply, h⟩ := hbyte trivial trivial h
    obtain ⟨hhops, h⟩ :=
      readable_number (by decide) message.hops.toBitVec.isLt message'.hops.toBitVec.isLt h
    obtain ⟨hdeadline, h⟩ := readable_canonicalOption toString_injective
      (fun deadline _ => short_toString deadline) (fun deadline _ => short_toString deadline) h
    obtain ⟨hparent, h⟩ := readable_canonicalOption injective_id hm.inReplyTo hm'.inReplyTo h
    obtain ⟨⟨horigin, hintent, hreferences⟩, h⟩ := canonicalMessageControl_inj hm hm' h
    obtain ⟨hissued, h⟩ :=
      readable_number (by decide) issuedAt.toBitVec.isLt issuedAt'.toBitVec.isLt h
    obtain ⟨hnotice, hreason⟩ := canonicalThreadNotice_inj hm hm' h
    exact ⟨hscope, hid, Int64.toBitVec_inj.mp (BitVec.eq_of_toNat_eq hissued), hto, hbody, hreply,
      Int32.toBitVec_inj.mp (BitVec.eq_of_toNat_eq hhops), hdeadline, hparent, horigin, hintent,
      hreferences, hnotice, hreason⟩
  · rintro ⟨rfl, rfl, rfl, hto, hbody, hreply, hhops, hdeadline, hparent, horigin, hintent,
      hreferences, hnotice, hreason⟩
    simp only [canonicalSend, canonicalMessageControl, canonicalThreadNotice, canonicalReason, hto,
      hbody, hreply, hhops, hdeadline, hparent, horigin, hintent, hreferences, hnotice, hreason]

/-- A message that refers to nothing, sent to a project of its own or to another one. -/
def plainMessage (crossProjectReason : Option String) : SentMessage :=
  { id := "m-1"
    fromAgent := "codex-1"
    toAgent := "codex-2"
    body := "bonjour"
    reply := true
    inReplyTo := none
    hops := 4
    deadlineAt := some 1700000000
    origin := none
    intent := none
    references := []
    threadNotice := none
    crossProjectReason }

/-- A reason makes another send. -/
theorem reason_changes_send :
    (∀ reason ∈ [none, some "revue"], Encodable "012_scope" "m-1" (plainMessage reason)) ∧
      canonicalSend "012_scope" "m-1" (plainMessage none) 1699999000 ≠
        canonicalSend "012_scope" "m-1" (plainMessage (some "revue")) 1699999000 := by
  have hm : ∀ reason ∈ [none, some "revue"], Encodable "012_scope" "m-1" (plainMessage reason) := by
    intro reason hreason
    have htexts : Short (utf8 "codex-2") ∧ Short (utf8 "bonjour") := by decide +kernel
    refine ⟨by decide +kernel, by decide +kernel, htexts.1, htexts.2, fun _ h => (nomatch h),
      Nat.two_pow_pos 64, fun _ h => (nomatch h), fun _ h => (nomatch h), ?_⟩
    revert reason
    decide +kernel
  refine ⟨hm, fun h => ?_⟩
  obtain ⟨-, -, -, -, -, -, -, -, -, -, -, -, -, hreason⟩ :=
    (canonicalSend_eq_iff _ _ _ _ _ _ _ _ (hm none (by decide)) (hm _ (by decide))).mp h
  cases hreason

end Bridget.Communication
