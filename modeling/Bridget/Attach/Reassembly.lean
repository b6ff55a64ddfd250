import Bridget.Attach.Fragments

/-!
# Events that are put together again

What a view makes of the messages of its subscriptions when parts are lost, repeated or sent again
in any order, and subscriptions end in between. It shows whole events only, in the order of their
numbers.
-/

namespace Bridget.Attach

open Foundation Journal List

/-! ## The view -/

def retiredSubscriptionsLimit : Nat := 64

structure AttachClient extends AttachClientState where
  subscriptionId : Option String
  retiredSubscriptions : List String
  waitingForSubscription : Bool
  deriving DecidableEq

/-- The messages about a subscription, and what the connection tells the view. -/
inductive AttachInput where
  | subscribed (subscriptionId : String)
  | journalFragment (subscriptionId : String) (fragment : Fragment)
  | snapshotCaughtUp (subscriptionId : String)
  | gap (subscriptionId : String) (fromSeq toSeq : Nat) (reason : Option String)
  | ended (subscriptionId : String)
  | subscriptionRequested
  | connectionClosed

def retire (subscriptionId : String) (retired : List String) : List String :=
  let retired :=
    if retired.getLast? = some subscriptionId then retired else retired ++ [subscriptionId]
  retired.drop (retired.length - retiredSubscriptionsLimit)

namespace AttachClient

def new : AttachClient := ⟨⟨none, false, none⟩, none, [], false⟩

variable (client : AttachClient)

/-- The assembly is lost with the subscription that it belongs to. -/
def reset (retiredSubscriptions : List String) (waitingForSubscription : Bool) : AttachClient :=
  ⟨{ client.toAttachClientState with caughtUp := false, reassembly := none }, none,
    retiredSubscriptions, waitingForSubscription⟩

def dispatch : AttachInput → List AttachEvent × AttachClient
  | .subscribed id =>
    if client.waitingForSubscription ∧ id ∉ client.retiredSubscriptions then
      ([], { client with subscriptionId := some id, waitingForSubscription := false })
    else ([], client)
  | .journalFragment id fragment =>
    if client.subscriptionId = some id then
      ((client.acceptFragment fragment).1,
        { client with toAttachClientState := (client.acceptFragment fragment).2 })
    else ([], client)
  | .snapshotCaughtUp id =>
    if client.subscriptionId = some id then ([], { client with caughtUp := true })
    else ([], client)
  | .gap id fromSeq toSeq reason =>
    if client.subscriptionId = some id then
      ([.gap fromSeq toSeq reason],
        { client with
          reassembly := client.reassembly.filter fun a => ¬ (fromSeq ≤ a.seq ∧ a.seq ≤ toSeq) })
    else ([], client)
  | .ended id =>
    if client.subscriptionId = some id then
      ([], client.reset (retire id client.retiredSubscriptions) true)
    else ([], client)
  | .subscriptionRequested => ([], client.reset client.retiredSubscriptions true)
  | .connectionClosed =>
    ([], client.reset (client.subscriptionId.elim client.retiredSubscriptions
      (retire · client.retiredSubscriptions)) false)

/-- A view after a message, with everything that it has shown. -/
def step (log : AttachClient × List AttachEvent) (input : AttachInput) :
    AttachClient × List AttachEvent :=
  ((log.1.dispatch input).2, log.2 ++ (log.1.dispatch input).1)

end AttachClient

/-! ## Events are whole -/

section

variable (truth : Nat → Bytes)

/-- A part of the event of its number, marked as the last one exactly if it is. -/
def AttachInput.Genuine : AttachInput → Prop
  | .journalFragment _ fragment =>
    fragment.offset + fragment.bytes.length ≤ (truth fragment.seq).length ∧
      fragment = fragmentOf fragment.seq (truth fragment.seq) fragment.offset fragment.bytes.length
  | _ => True

/-- The number and the bytes of an event that is shown. -/
def AttachEvent.shown : AttachEvent → Option (Nat × Bytes)
  | .journal seq bytes _ => some (seq, bytes)
  | .gap .. => none

/-- What has been put together is the beginning of an event. -/
def Begins (reassembly : Option Reassembly) : Prop :=
  ∀ a ∈ reassembly, a.dropping = false → a.bytes = (truth a.seq).take a.nextOffset

/-- The events are shown in order, once and as they are, and the next one is put together. -/
structure Faithful (client : AttachClientState) (shown : List (Nat × Bytes)) : Prop where
  exact : ∀ p ∈ shown, p.2 = truth p.1
  ordered : shown.Pairwise fun p q => p.1 < q.1
  last : ∀ p ∈ shown, ∃ last ∈ client.lastSeq, p.1 ≤ last
  begins : Begins truth client.reassembly

end

variable {truth : Nat → Bytes} {fragment : Fragment} {shown : List (Nat × Bytes)}
  {client : AttachClientState} {before : Option Reassembly} {gaps : List AttachEvent}

/-- What a part makes of the assembly before it. -/
structure Assembles (before : Option Reassembly) (fragment : Fragment) (events : List AttachEvent)
    (a : Reassembly) : Prop where
  gaps : events.filterMap AttachEvent.shown = []
  seq : a.seq = fragment.seq
  nextOffset : a.nextOffset = fragment.offset + fragment.bytes.length
  bytes : a.dropping = false → fragment.offset = 0 ∧ a.bytes = fragment.bytes ∨
    ∃ b ∈ before, b.seq = a.seq ∧ b.dropping = false ∧ b.nextOffset = fragment.offset ∧
      a.bytes = b.bytes ++ fragment.bytes

theorem acceptFragment_spec (client : AttachClientState) (fragment : Fragment) :
    ∃ gaps a, Assembles client.reassembly fragment gaps a ∧ client.acceptFragment fragment =
      (gaps ++ (client.complete fragment a).1, (client.complete fragment a).2) := by
  refine ⟨_, _, ?_, rfl⟩
  cases client.reassembly <;> constructor <;>
    grind [abandon, beginAssembly, checkOffset, extendAssembly, Reassembly.new, AttachEvent.shown]

section

variable {a : Reassembly} {id : String} (h : Assembles before fragment gaps a)
  (hgenuine : (AttachInput.journalFragment id fragment).Genuine truth)

include h hgenuine

/-- With a genuine part the assembly is still the beginning of the event. -/
theorem Assembles.begins (hbefore : Begins truth before) : Begins truth (some a) := by
  rintro _ ⟨⟩ hkept
  have hpart : fragment.bytes =
      ((truth fragment.seq).drop fragment.offset).take fragment.bytes.length :=
    congrArg Fragment.bytes hgenuine.2
  rw [h.nextOffset, h.seq]
  rcases h.bytes hkept with ⟨hzero, ha⟩ | ⟨b, hb, hsame, hlive, hoffset, ha⟩
  · rwa [ha, hzero, Nat.zero_add, ← drop_zero (l := truth fragment.seq), ← hzero]
  · rw [ha, hbefore b hb hlive, hsame, h.seq, hoffset, take_add, ← hpart]

/-- With the last part it is the whole event. -/
theorem Assembles.whole (hbegins : Begins truth (some a)) (hkept : a.dropping = false)
    (hfinal : fragment.finalFragment = true) : a.bytes = truth fragment.seq := by
  obtain ⟨hlength, hfragment⟩ := hgenuine
  have hlast := of_decide_eq_true ((congrArg Fragment.finalFragment hfragment).symm.trans hfinal)
  rw [hbegins a rfl hkept, h.seq, h.nextOffset, take_of_length_le]
  omega

end

namespace Faithful

theorem acceptFragment {id : String} (h : Faithful truth client shown)
    (hgenuine : (AttachInput.journalFragment id fragment).Genuine truth) :
    Faithful truth (client.acceptFragment fragment).2
      (shown ++ (client.acceptFragment fragment).1.filterMap AttachEvent.shown) := by
  obtain ⟨gaps, a, hassembles, haccepted⟩ := acceptFragment_spec client fragment
  have hbegins := hassembles.begins hgenuine h.begins
  rw [haccepted, filterMap_append, hassembles.gaps, nil_append]
  unfold AttachClientState.complete
  split_ifs with hfinal hshown
  · have hlater : ∀ p ∈ shown, p.1 < fragment.seq := by
      intro p hp
      obtain ⟨last, hlast, hle⟩ := h.last p hp
      exact lt_of_le_of_lt hle (hshown.2 last hlast)
    refine ⟨?_, ?_, ?_, by simp [Begins]⟩
    · refine forall_mem_append.mpr ⟨h.exact, ?_⟩
      simpa [AttachEvent.shown] using hassembles.whole hgenuine hbegins hshown.1 hfinal
    · exact pairwise_append.mpr ⟨h.ordered, by simp [AttachEvent.shown],
        by simpa [AttachEvent.shown] using hlater⟩
    · refine forall_mem_append.mpr ⟨fun p hp => ⟨_, rfl, (hlater p hp).le⟩, ?_⟩
      simp [AttachEvent.shown]
  · simpa using ⟨h.exact, h.ordered, h.last, by simp [Begins]⟩
  · simpa using ⟨h.exact, h.ordered, h.last, hbegins⟩

theorem dispatch {client : AttachClient} (h : Faithful truth client.toAttachClientState shown)
    {input : AttachInput} (hgenuine : input.Genuine truth) :
    Faithful truth (client.dispatch input).2.toAttachClientState
      (shown ++ (client.dispatch input).1.filterMap AttachEvent.shown) := by
  have hsame : Faithful truth client.toAttachClientState (shown ++ []) := by rwa [append_nil]
  have hreset : Faithful truth { client.toAttachClientState with
      caughtUp := false, reassembly := none } (shown ++ []) :=
    ⟨hsame.exact, hsame.ordered, hsame.last, by simp [Begins]⟩
  unfold AttachClient.dispatch
  cases input with
  | journalFragment =>
    dsimp only
    split_ifs
    · exact h.acceptFragment hgenuine
    · exact hsame
  | snapshotCaughtUp =>
    dsimp only
    split_ifs
    · exact { hsame with }
    · exact hsame
  | gap =>
    dsimp only
    split_ifs
    · refine ⟨hsame.exact, hsame.ordered, hsame.last, fun a ha => ?_⟩
      exact h.begins a (Option.mem_filter_iff.mp ha).1
    · exact hsame
  | subscribed =>
    dsimp only
    split_ifs <;> exact hsame
  | ended =>
    dsimp only
    split_ifs
    · exact hreset
    · exact hsame
  | subscriptionRequested | connectionClosed => exact hreset

end Faithful

/-- Whatever is lost, repeated or sent again, a view shows whole events in the order of their
numbers. -/
theorem views_show_whole_events (truth : Nat → Bytes) {inputs : List AttachInput}
    (hgenuine : ∀ input ∈ inputs, input.Genuine truth) :
    let log := inputs.foldl AttachClient.step (.new, [])
    Faithful truth log.1.toAttachClientState (log.2.filterMap AttachEvent.shown) := by
  refine foldlRecOn (motive := fun log : AttachClient × List AttachEvent =>
    Faithful truth log.1.toAttachClientState (log.2.filterMap AttachEvent.shown)) inputs _ ?_ ?_
  · exact ⟨by simp, by simp, by simp, by simp [Begins, AttachClient.new]⟩
  · intro log h input hmem
    simpa only [AttachClient.step, filterMap_append] using h.dispatch (hgenuine input hmem)

/-- A part comes twice, so that the event is given up; then everything is sent again, twice. -/
def repeatedParts : List AttachInput :=
  [.subscriptionRequested, .subscribed "a", .journalFragment "a" ⟨1, 0, false, [1]⟩,
    .journalFragment "a" ⟨1, 0, false, [1]⟩, .journalFragment "a" ⟨1, 1, true, [2]⟩, .ended "a",
    .subscribed "b", .journalFragment "b" ⟨1, 0, true, [1, 2]⟩,
    .journalFragment "b" ⟨1, 0, true, [1, 2]⟩, .journalFragment "b" ⟨2, 0, true, [1, 2]⟩]

/-- A part that comes twice is used once. -/
theorem repeated_parts_are_shown_once :
    let log := repeatedParts.foldl AttachClient.step (.new, [])
    log.2.filterMap AttachEvent.shown = [(1, [1, 2]), (2, [1, 2])] ∧
      Faithful (fun _ => [1, 2]) log.1.toAttachClientState (log.2.filterMap AttachEvent.shown) :=
  ⟨by decide, views_show_whole_events _ (by simp [repeatedParts, AttachInput.Genuine, fragmentOf])⟩

end Bridget.Attach
