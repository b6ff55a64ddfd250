import Bridget.Attach.Protocol
import Bridget.Foundation.Search

/-!
# Events in fragments

An event leaves the relay in parts that fit a frame each, and the view that receives them puts
it together again.
-/

namespace Bridget.Attach

open Foundation Journal List

/-! ## The relay -/

/-- Events that wait to be sent, and the one that is being sent with the offset reached. -/
structure FragmentQueue where
  pendingEvents : List (Nat × Bytes)
  pendingFragment : Option (Nat × Bytes × Nat)
  deriving DecidableEq

/-- A replay of journal files for one view. The reader is that of the file at `fileIndex`. -/
structure RelaySubscription extends FragmentQueue where
  subscriptionId : String
  window : AttachWindow
  (fromSeq expectedSnapshotSeq : Option Nat)
  files : List String
  followAfter : Option String
  fileIndex : Nat
  reader : Option IncrementalJournalReader
  caughtUp : Bool
  (throughSeq liveFloor : Option Nat)
  deriving DecidableEq

structure LiveFanout extends FragmentQueue where
  cursor : Option Nat
  deriving DecidableEq

inductive Emission where
  | idle
  | emptied (seq : Nat)
  | fragment (fragment : Fragment)

def FragmentQueue.takeUp (queue : FragmentQueue) : FragmentQueue :=
  match queue.pendingFragment, queue.pendingEvents with
  | none, (seq, bytes) :: rest => ⟨rest, some (seq, bytes, 0)⟩
  | _, _ => queue

def fragmentOf (seq : Nat) (bytes : Bytes) (offset length : Nat) : Fragment :=
  { seq
    offset
    finalFragment := length = bytes.length - offset
    bytes := (bytes.drop offset).take length }

/-- The common part of `emit_one_fragment` and `emit_one_live_fragment`, which differ in the
frame whose length they test. -/
def FragmentQueue.emitOne (fits : Fragment → Bool) (queue : FragmentQueue) :
    Emission × FragmentQueue :=
  let queue := queue.takeUp
  match queue.pendingFragment with
  | none => (.idle, queue)
  | some (seq, bytes, offset) =>
    let remaining := bytes.length - offset
    if remaining = 0 then (.emptied seq, { queue with pendingFragment := none })
    else
      let length := searchSize (fun candidate => fits (fragmentOf seq bytes offset candidate)) 1
        (min remaining maxAttachFragmentBytes)
      (.fragment (fragmentOf seq bytes offset length),
        { queue with
          pendingFragment := if length = remaining then none
            else some (seq, bytes, offset + length) })

/-- `emit_one_fragment`: what it returned, what it sent and what it left. -/
def RelaySubscription.emitOneFragment (subscription : RelaySubscription) :
    Bool × List WrapperToDaemon × RelaySubscription :=
  match subscription.emitOne (fitsFrame subscription.subscriptionId) with
  | (.idle, queue) => (false, [], { subscription with toFragmentQueue := queue })
  | (.emptied seq, queue) =>
    (false, [], { subscription with toFragmentQueue := queue, throughSeq := some seq })
  | (.fragment fragment, queue) =>
    (true, [.journalFragment subscription.subscriptionId fragment],
      { subscription with
        toFragmentQueue := queue
        throughSeq := if fragment.finalFragment then some fragment.seq
          else subscription.throughSeq })

def LiveFanout.emitOneLiveFragment (fanout : LiveFanout) :
    Bool × List WrapperToDaemon × LiveFanout :=
  match fanout.emitOne fitsLiveFrame with
  | (.idle, queue) | (.emptied _, queue) => (false, [], { fanout with toFragmentQueue := queue })
  | (.fragment fragment, queue) =>
    (true, [.liveJournalFragment fragment], { fanout with toFragmentQueue := queue })

def RelaySubscription.emitFragments : Nat → RelaySubscription →
    List WrapperToDaemon × RelaySubscription
  | 0, subscription => ([], subscription)
  | calls + 1, subscription =>
    let sent := subscription.emitOneFragment.2.1
    let later := emitFragments calls subscription.emitOneFragment.2.2
    (sent ++ later.1, later.2)

/-! ## The view -/

def maxReassemblyBytes : Nat := 4 * 1024 * 1024

structure Reassembly where
  (seq nextOffset : Nat)
  bytes : Bytes
  dropping : Bool
  deriving DecidableEq

def Reassembly.new (seq : Nat) (dropping : Bool) : Reassembly := ⟨seq, 0, [], dropping⟩

inductive AttachEvent where
  | gap (fromSeq toSeq : Nat) (reason : Option String)
  | journal (seq : Nat) (bytes : Bytes) (live : Bool)
  deriving DecidableEq

structure AttachClientState where
  lastSeq : Option Nat
  caughtUp : Bool
  reassembly : Option Reassembly
  deriving DecidableEq

/-- An event of another number is given up. -/
def abandon (seq : Nat) : Option Reassembly → List AttachEvent × Option Reassembly
  | none => ([], none)
  | some assembly =>
    if assembly.seq = seq then ([], some assembly)
    else if assembly.dropping then ([], none)
    else ([.gap assembly.seq assembly.seq (some "fragment_missing")], none)

variable (fragment : Fragment)

def beginAssembly : Option Reassembly → List AttachEvent × Reassembly
  | some assembly => ([], assembly)
  | none =>
    if fragment.offset ≠ 0 then
      ([.gap fragment.seq fragment.seq (some "fragment_missing")], .new fragment.seq true)
    else ([], .new fragment.seq false)

variable (assembly : Reassembly)

/-- A part that does not follow the one before makes the event incomplete. -/
def checkOffset : List AttachEvent × Reassembly :=
  if assembly.dropping = false ∧ fragment.offset ≠ assembly.nextOffset then
    ([.gap fragment.seq fragment.seq (some "fragment_missing")],
      { assembly with bytes := [], dropping := true })
  else ([], assembly)

def extendAssembly : List AttachEvent × Reassembly :=
  if assembly.dropping then ([], assembly)
  else if maxReassemblyBytes < assembly.bytes.length + fragment.bytes.length then
    ([.gap fragment.seq fragment.seq (some "event_too_large")],
      { assembly with bytes := [], dropping := true })
  else ([], { assembly with bytes := assembly.bytes ++ fragment.bytes })

variable (client : AttachClientState)

/-- The last part hands the event on, unless one with its number or a later one was. -/
def AttachClientState.complete (fragment : Fragment)
    (assembly : Reassembly) : List AttachEvent × AttachClientState :=
  if fragment.finalFragment then
    if assembly.dropping = false ∧ ∀ last ∈ client.lastSeq, last < fragment.seq then
      ([.journal fragment.seq assembly.bytes client.caughtUp],
        { client with lastSeq := some fragment.seq, reassembly := none })
    else ([], { client with reassembly := none })
  else ([], { client with reassembly := some assembly })

def AttachClientState.acceptFragment (fragment : Fragment) : List AttachEvent × AttachClientState :=
  let abandoned := abandon fragment.seq client.reassembly
  let begun := beginAssembly fragment abandoned.2
  let checked := checkOffset fragment begun.2
  let extended := extendAssembly fragment checked.2
  let assembly := { extended.2 with nextOffset := fragment.offset + fragment.bytes.length }
  let completed := client.complete fragment assembly
  (abandoned.1 ++ begun.1 ++ checked.1 ++ extended.1 ++ completed.1, completed.2)

def AttachClientState.acceptFragments : List Fragment → AttachClientState →
    List AttachEvent × AttachClientState
  | [], client => ([], client)
  | fragment :: rest, client =>
    let events := (client.acceptFragment fragment).1
    let later := acceptFragments rest (client.acceptFragment fragment).2
    (events ++ later.1, later.2)

/-! ## The parts of an event -/

/-- Parts that follow each other from an offset to the end of an event; only the last one is
marked as such. -/
inductive Parts (seq : Nat) (bytes : Bytes) : Nat → List Fragment → Prop
  | last {offset : Nat} (h : offset < bytes.length) :
      Parts seq bytes offset [⟨seq, offset, true, bytes.drop offset⟩]
  | more {offset length : Nat} {rest : List Fragment} (hlength : 1 ≤ length)
      (h : offset + length < bytes.length) (hrest : Parts seq bytes (offset + length) rest) :
      Parts seq bytes offset (⟨seq, offset, false, (bytes.drop offset).take length⟩ :: rest)

variable (subscriptionId : String)

/-- Not empty, and within the limits of a fragment and of a frame. -/
def Sendable (fragment : Fragment) : Prop :=
  1 ≤ fragment.bytes.length ∧ fragment.bytes.length ≤ maxAttachFragmentBytes ∧
    (encodeJournalFragment subscriptionId fragment).length ≤ maxAttachSerializedFrameBytes

/-- Every frame with a single byte of the event can be sent. -/
def OneByteFits (seq : Nat) (bytes : Bytes) : Prop :=
  ∀ offset < bytes.length,
    (encodeJournalFragment subscriptionId (fragmentOf seq bytes offset 1)).length ≤
      maxAttachSerializedFrameBytes

variable {subscriptionId : String} {seq length : Nat} {bytes : Bytes} {offset : Nat}

theorem length_jsonString_le (text : Bytes) : (jsonString text).length ≤ 6 * text.length + 2 := by
  have hescape : ∀ byte : UInt8, (jsonEscape byte).length ≤ 6 := by decide +kernel
  have hescapes : (text.flatMap jsonEscape).length ≤ 6 * text.length := by
    induction text with
    | nil => rfl
    | cons byte =>
      rw [flatMap_cons, length_append, length_cons]
      have := hescape byte
      omega
  simp only [jsonString, length_append, length_singleton]
  omega

/-- The names of subscriptions are far from long enough to keep a byte out of a frame. -/
theorem oneByteFits (hid : (utf8 subscriptionId).length ≤ 1024) (hseq : seq ≤ u64Max)
    (hsize : bytes.length ≤ u64Max) : OneByteFits subscriptionId seq bytes := by
  intro offset hoffset
  have hbyte : (base64 ((bytes.drop offset).take 1)).length = 4 := by
    rw [take_one_drop_eq_of_lt_length hoffset]
    rfl
  have hname := length_jsonString_le (utf8 subscriptionId)
  have hbytes := length_jsonString_le (base64 ((bytes.drop offset).take 1))
  have hnumber := length_decimal_le hseq
  have hposition := length_decimal_le (hoffset.le.trans hsize)
  have hfixed : ∀ final : Bool,
      (utf8 "\x7b\"type\":\"JournalFragment\",\"subscription_id\":").length +
        (utf8 ",").length + (utf8 "\"seq\":").length + (utf8 ",\"offset\":").length +
        (utf8 ",\"final\":").length + (jsonBool final).length + (utf8 ",\"bytes\":").length +
        (utf8 "\x7d").length ≤ 100 := by
    decide +kernel
  specialize hfixed (1 = bytes.length - offset)
  simp only [encodeJournalFragment, Fragment.members, fragmentOf, length_append,
    maxAttachSerializedFrameBytes]
  omega

theorem fragmentOf_length (h : length ≤ bytes.length - offset) :
    (fragmentOf seq bytes offset length).bytes.length = length := by
  simp only [fragmentOf, length_take, length_drop]
  omega

/-- A call that finds an unfinished event cuts a part off it that fits, if a byte does. -/
theorem FragmentQueue.emitOne_cut {fits : Fragment → Bool} {queue : FragmentQueue}
    (hpending : queue.pendingFragment = some (seq, bytes, offset)) (hrest : offset < bytes.length)
    (hone : fits (fragmentOf seq bytes offset 1) = true) :
    ∃ length, 1 ≤ length ∧ length ≤ bytes.length - offset ∧ length ≤ maxAttachFragmentBytes ∧
      fits (fragmentOf seq bytes offset length) = true ∧ queue.emitOne fits =
        (.fragment (fragmentOf seq bytes offset length),
          { queue with
            pendingFragment := if length = bytes.length - offset then none
              else some (seq, bytes, offset + length) }) := by
  have htaken : queue.takeUp = queue := by
    unfold takeUp
    rw [hpending]
  have hremaining : ¬ bytes.length - offset = 0 := by omega
  have hmax : 1 ≤ min (bytes.length - offset) maxAttachFragmentBytes := by
    unfold maxAttachFragmentBytes
    omega
  let fitting := fun candidate => fits (fragmentOf seq bytes offset candidate)
  refine ⟨searchSize fitting 1 (min (bytes.length - offset) maxAttachFragmentBytes),
    le_searchSize, ?_, ?_, ?_, ?_⟩
  · exact (searchSize_le hmax).trans (min_le_left _ _)
  · exact (searchSize_le hmax).trans (min_le_right _ _)
  · -- The search starts from a size of one, which it never tests.
    obtain hsame | hfound := searchSize_eq_or_fits fitting 1
      (min (bytes.length - offset) maxAttachFragmentBytes)
    · rw [hsame]
      exact hone
    · exact hfound
  · simp only [emitOne, htaken, hpending, hremaining, if_false]
    rfl

namespace RelaySubscription

variable {subscription : RelaySubscription}

/-- Calls on an event that is being sent send the parts that are left of it. -/
theorem emitFragments_parts (hfits : OneByteFits subscription.subscriptionId seq bytes)
    (hrest : offset < bytes.length)
    (hpending : subscription.pendingFragment = some (seq, bytes, offset)) :
    ∃ fragments, Parts seq bytes offset fragments ∧
      (∀ fragment ∈ fragments, Sendable subscription.subscriptionId fragment) ∧
      emitFragments fragments.length subscription =
        (fragments.map (.journalFragment subscription.subscriptionId),
          { subscription with pendingFragment := none, throughSeq := some seq }) := by
  -- What is left of the event gets shorter with every call.
  induction hleft : bytes.length - offset using Nat.strongRecOn
    generalizing subscription offset with
  | ind _ ih =>
    have hone : fitsFrame subscription.subscriptionId (fragmentOf seq bytes offset 1) = true :=
      decide_eq_true (hfits offset hrest)
    obtain ⟨length, hpositive, hlength, _, hfit, hemit⟩ :=
      FragmentQueue.emitOne_cut hpending hrest hone
    have hsendable : Sendable subscription.subscriptionId (fragmentOf seq bytes offset length) := by
      refine ⟨?_, ?_, of_decide_eq_true hfit⟩ <;> rwa [fragmentOf_length hlength]
    by_cases hlast : length = bytes.length - offset
    · have hfragment : fragmentOf seq bytes offset length =
          ⟨seq, offset, true, bytes.drop offset⟩ := by
        simp only [fragmentOf, hlast, decide_true, ← length_drop, take_length]
      rw [hfragment] at hemit hsendable
      refine ⟨_, .last hrest, ?_, ?_⟩
      · simpa using hsendable
      · simp only [length_singleton, emitFragments, emitOneFragment, hemit, hlast]
        rfl
    · have hfragment : fragmentOf seq bytes offset length =
          ⟨seq, offset, false, (bytes.drop offset).take length⟩ := by
        simp only [fragmentOf, hlast, decide_false]
      rw [hfragment, if_neg hlast] at hemit
      rw [hfragment] at hsendable
      have hsent : subscription.emitOneFragment =
          (true, [.journalFragment subscription.subscriptionId
              ⟨seq, offset, false, (bytes.drop offset).take length⟩],
            { subscription with pendingFragment := some (seq, bytes, offset + length) }) := by
        simp only [emitOneFragment, hemit]
        rfl
      obtain ⟨_, hparts, hall, hcalls⟩ := @ih (bytes.length - (offset + length)) (by omega)
        (offset + length)
        { subscription with pendingFragment := some (seq, bytes, offset + length) }
        hfits (by omega) rfl rfl
      refine ⟨_, .more hpositive (by omega) hparts, ?_, ?_⟩
      · exact forall_mem_cons.mpr ⟨hsendable, hall⟩
      · simp only [length_cons, emitFragments, hsent, hcalls]
        rfl

end RelaySubscription

namespace AttachClientState

variable {client : AttachClientState} {fragments : List Fragment}

/-- A part that follows what is there is added to it. -/
theorem acceptFragment_continues {taken part : Bytes} {finalFragment : Bool}
    (hroom : taken.length + part.length ≤ maxReassemblyBytes)
    (hclient : client.reassembly = some ⟨seq, offset, taken, false⟩) :
    client.acceptFragment ⟨seq, offset, finalFragment, part⟩ =
      client.complete ⟨seq, offset, finalFragment, part⟩
        ⟨seq, offset + part.length, taken ++ part, false⟩ := by
  have habandon : abandon seq client.reassembly = ([], some ⟨seq, offset, taken, false⟩) := by
    rw [hclient, abandon, if_pos rfl]
  have hextend : extendAssembly ⟨seq, offset, finalFragment, part⟩ ⟨seq, offset, taken, false⟩ =
      ([], ⟨seq, offset, taken ++ part, false⟩) := by
    rw [extendAssembly, if_neg Bool.false_ne_true, if_neg (Nat.not_lt.mpr hroom)]
  simp only [acceptFragment, habandon, beginAssembly, checkOffset, ne_eq, not_true_eq_false,
    and_false, if_false, hextend, nil_append]

/-- The first part begins an event. -/
theorem acceptFragment_first (finalFragment : Bool) (part : Bytes)
    (hclient : client.reassembly = none) :
    client.acceptFragment ⟨seq, 0, finalFragment, part⟩ =
      { client with reassembly := some (.new seq false) }.acceptFragment
        ⟨seq, 0, finalFragment, part⟩ := by
  simp [acceptFragment, hclient, abandon, beginAssembly, Reassembly.new, complete]

/-- The parts of an event, accepted in order, give the event. -/
theorem acceptFragments_parts (hparts : Parts seq bytes offset fragments)
    (hsize : bytes.length ≤ maxReassemblyBytes) (hnew : ∀ last ∈ client.lastSeq, last < seq)
    (hclient : client.reassembly = some ⟨seq, offset, bytes.take offset, false⟩) :
    acceptFragments fragments client = ([.journal seq bytes client.caughtUp],
        { client with lastSeq := some seq, reassembly := none }) := by
  induction hparts generalizing client with
  | @last offset =>
    have hroom : (bytes.take offset).length + (bytes.drop offset).length ≤ maxReassemblyBytes := by
      rwa [← length_append, take_append_drop]
    rw [acceptFragments, acceptFragment_continues hroom hclient, take_append_drop, complete,
      if_pos rfl, if_pos ⟨rfl, hnew⟩]
    rfl
  | @more offset length _ _ h _ ih =>
    have hlength : ((bytes.drop offset).take length).length = length := by
      rw [length_take, length_drop]
      omega
    have htaken : (bytes.take offset).length = offset := by
      rw [length_take]
      omega
    rw [acceptFragments, acceptFragment_continues (by omega) hclient, hlength, ← take_add,
      complete, if_neg (by simp), ih]
    · rfl
    · exact hnew
    · rfl

/-- It does not matter whether the beginning of an event has been noticed yet. -/
theorem acceptFragments_first (hparts : Parts seq bytes 0 fragments)
    (hclient : client.reassembly = none) :
    acceptFragments fragments client =
      acceptFragments fragments { client with reassembly := some (.new seq false) } := by
  generalize hoffset : 0 = offset at hparts
  cases hparts with
  | last | more =>
    subst hoffset
    simp only [acceptFragments, acceptFragment_first _ _ hclient]

end AttachClientState

/-- An event that is sent in fragments arrives as it was, with one frame for each call. -/
theorem fragments_reassemble (subscription : RelaySubscription) (client : AttachClientState)
    (seq : Nat) (bytes : Bytes) (later : List (Nat × Bytes))
    (hpending : subscription.pendingFragment = none)
    (hevents : subscription.pendingEvents = (seq, bytes) :: later)
    (hnonempty : 1 ≤ bytes.length) (hsize : bytes.length ≤ maxReassemblyBytes)
    (hfits : OneByteFits subscription.subscriptionId seq bytes)
    (hnew : ∀ last ∈ client.lastSeq, last < seq) (hclient : client.reassembly = none) :
    ∃ fragments,
      subscription.emitFragments fragments.length =
        (fragments.map (.journalFragment subscription.subscriptionId),
          { subscription with
            pendingEvents := later
            pendingFragment := none
            throughSeq := some seq }) ∧
      Parts seq bytes 0 fragments ∧
      (∀ fragment ∈ fragments, Sendable subscription.subscriptionId fragment) ∧
      client.acceptFragments fragments =
        ([.journal seq bytes client.caughtUp],
          { client with lastSeq := some seq, reassembly := none }) := by
  obtain ⟨fragments, hparts, hsendable, hcalls⟩ :=
    @RelaySubscription.emitFragments_parts seq bytes 0
    { subscription with pendingEvents := later, pendingFragment := some (seq, bytes, 0) }
    hfits hnonempty rfl
  refine ⟨fragments, ?_, hparts, hsendable, ?_⟩
  · cases fragments with
    | nil => cases hparts
    | cons =>
      rw [length_cons, RelaySubscription.emitFragments] at hcalls ⊢
      obtain ⟨⟨_, _⟩, _⟩ := subscription
      cases hpending
      cases hevents
      exact hcalls
  · rw [AttachClientState.acceptFragments_first hparts hclient]
    exact AttachClientState.acceptFragments_parts hparts hsize hnew rfl

/-- An entry that does not fit one frame, for a view that has seen the one before. -/
theorem entry_reassembles :
    let entry := noteCodec.toVec (paddedNote 8 maxAttachFragmentBytes)
    let client : AttachClientState := ⟨some 7, false, none⟩
    OneByteFits "view-1" 8 entry ∧
      ∃ fragments, 2 ≤ fragments.length ∧ Parts 8 entry 0 fragments ∧
        client.acceptFragments fragments =
          ([.journal 8 entry false], { client with lastSeq := some 8 }) := by
  intro entry client
  obtain ⟨hlong, hshort⟩ : maxAttachFragmentBytes < entry.length ∧
      entry.length < maxAttachFragmentBytes + 128 := length_paddedNote _ (by decide)
  have hroom : maxAttachFragmentBytes + 128 ≤ maxReassemblyBytes := by decide
  have hrange : maxReassemblyBytes ≤ u64Max := by decide
  have hfits : OneByteFits "view-1" 8 entry :=
    oneByteFits (by decide +kernel) (by decide) (by omega)
  let subscription : RelaySubscription :=
    { pendingEvents := [(8, entry)]
      pendingFragment := none
      subscriptionId := "view-1"
      window := .seq 8
      fromSeq := some 8
      expectedSnapshotSeq := some 9
      files := []
      followAfter := none
      fileIndex := 0
      reader := none
      caughtUp := false
      throughSeq := none
      liveFloor := some 7 }
  obtain ⟨fragments, -, hparts, hsendable, haccepted⟩ :=
    fragments_reassemble subscription client 8 entry [] rfl rfl (by omega) (by omega) hfits
      (by decide) rfl
  refine ⟨hfits, fragments, ?_, hparts, haccepted⟩
  cases hparts with
  | last => exact absurd (hsendable _ mem_cons_self).2.1 (not_le.mpr hlong)
  | more _ _ hrest => cases hrest <;> simp

end Bridget.Attach
