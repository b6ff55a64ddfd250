import Bridget.Foundation.Fallible

/-!
# Calls that write to a disk and may crash

A call works on a disk and on a memory. It changes the disk by atomic writes, and a crash
between two of them leaves the disk as the last write left it and the memory gone. So the
outcome of a call keeps every disk it went through. `Ensures` says what holds after a call,
whether it returned or failed, and of all the disks on the way; its rules follow the
constructors of a call.
-/

namespace Bridget.Foundation

variable {Disk Memory ε α β : Type}

/-- What a call leaves behind, with the disk after each of its writes. -/
structure Outcome (Disk Memory ε α : Type) where
  result : Except ε α
  disk : Disk
  memory : Memory
  written : List Disk

def Durable (Disk Memory ε α : Type) : Type := Disk → Memory → Outcome Disk Memory ε α

namespace Durable

def bind (x : Durable Disk Memory ε α) (f : α → Durable Disk Memory ε β) :
    Durable Disk Memory ε β := fun d m =>
  let first := x d m
  match first.result with
  | .error e => ⟨.error e, first.disk, first.memory, first.written⟩
  | .ok a =>
    let second := f a first.disk first.memory
    { second with written := first.written ++ second.written }

instance : Monad (Durable Disk Memory ε) where
  pure a := fun d m => ⟨.ok a, d, m, []⟩
  bind := bind

/-- A step that changes nothing. -/
def inspect (f : Disk → Memory → Except ε α) : Durable Disk Memory ε α :=
  fun d m => ⟨f d m, d, m, []⟩

/-- One atomic write: a failed one leaves the disk as it was. -/
def write (f : Disk → Except ε (α × Disk)) : Durable Disk Memory ε α := fun d m =>
  match f d with
  | .ok (a, d') => ⟨.ok a, d', m, [d']⟩
  | .error e => ⟨.error e, d, m, []⟩

def remember (f : Memory → Memory) : Durable Disk Memory ε Unit := fun d m => ⟨.ok (), d, f m, []⟩

/-- Go on after a failure, which becomes a value. -/
def attempt (x : Durable Disk Memory ε α) : Durable Disk Memory ε (Except ε α) := fun d m =>
  let outcome := x d m
  ⟨.ok outcome.result, outcome.disk, outcome.memory, outcome.written⟩

/-- Run a call for each element, up to the first failure. -/
def each (f : α → Durable Disk Memory ε Unit) : List α → Durable Disk Memory ε Unit
  | [] => pure ()
  | x :: rest => do
      f x
      each f rest

/-- The disk that a crash after the given number of writes leaves behind. -/
def diskAfter (x : Durable Disk Memory ε α) (writes : Nat) (d : Disk) (m : Memory) : Disk :=
  (d :: (x d m).written).getD writes (x d m).disk

/-- Every disk on the way is safe; `post` holds when the call returns and `failed` when it
fails. -/
structure Ensures (safe : Disk → Prop) (failed : Disk → Memory → Prop)
    (x : Durable Disk Memory ε α) (post : α → Disk → Memory → Prop) (d : Disk) (m : Memory) :
    Prop where
  written : ∀ d' ∈ (x d m).written, safe d'
  returned : ∀ a, (x d m).result = .ok a → post a (x d m).disk (x d m).memory
  failed : ∀ e, (x d m).result = .error e → failed (x d m).disk (x d m).memory

variable {safe : Disk → Prop} {failed : Disk → Memory → Prop}
  {post post' : α → Disk → Memory → Prop} {d : Disk} {m : Memory}

variable {x : Durable Disk Memory ε α} {f : Disk → Memory → Except ε α}

theorem Ensures.mono (h : Ensures safe failed x post d m)
    (hpost : ∀ a d m, post a d m → post' a d m) : Ensures safe failed x post' d m where
  written := h.written
  returned a ha := hpost _ _ _ (h.returned a ha)
  failed := h.failed

theorem Ensures.imp {safe' : Disk → Prop} {failed' : Disk → Memory → Prop}
    (h : Ensures safe failed x post d m) (hsafe : ∀ d, safe d → safe' d)
    (hfailed : ∀ d m, failed d m → failed' d m) (hpost : ∀ a d m, post a d m → post' a d m) :
    Ensures safe' failed' x post' d m where
  written d' hd' := hsafe d' (h.written d' hd')
  returned a ha := hpost _ _ _ (h.returned a ha)
  failed e he := hfailed _ _ (h.failed e he)

theorem ensures_pure {a : α} (h : post a d m) :
    Ensures safe failed (pure a : Durable Disk Memory ε α) post d m where
  written := by simp [pure]
  returned a' ha := by
    cases ha
    exact h
  failed e he := by cases he

theorem ensures_bind {f : α → Durable Disk Memory ε β} {post : β → Disk → Memory → Prop}
    (h : Ensures safe failed x (fun a d m => Ensures safe failed (f a) post d m) d m) :
    Ensures safe failed (x >>= f) post d m := by
  have hunfold : (x >>= f) d m = bind x f d m := rfl
  cases hresult : (x d m).result with
  | error e =>
    have hout : (x >>= f) d m = ⟨.error e, (x d m).disk, (x d m).memory, (x d m).written⟩ := by
      rw [hunfold, bind, hresult]
    constructor
    · rw [hout]
      exact h.written
    · rw [hout]
      exact fun _ hok => nomatch hok
    · rw [hout]
      exact fun _ _ => h.failed e hresult
  | ok a =>
    have hnext := h.returned a hresult
    have hout : (x >>= f) d m = { f a (x d m).disk (x d m).memory with
        written := (x d m).written ++ (f a (x d m).disk (x d m).memory).written } := by
      rw [hunfold, bind, hresult]
    constructor
    · rw [hout]
      intro d' hd'
      rcases List.mem_append.mp hd' with hfirst | hsecond
      · exact h.written d' hfirst
      · exact hnext.written d' hsecond
    · rw [hout]
      exact hnext.returned
    · rw [hout]
      exact hnext.failed

theorem ensures_inspect (hok : ∀ a, f d m = .ok a → post a d m)
    (herror : ∀ e, f d m = .error e → failed d m) :
    Ensures safe failed (inspect f) post d m where
  written := by simp [inspect]
  returned := hok
  failed := herror

theorem ensures_raise {e : ε} (h : failed d m) :
    Ensures safe failed (inspect fun _ _ => .error e) post d m :=
  ensures_inspect (by simp) fun _ _ => h

/-- What was read decides how the call goes on. -/
theorem ensures_inspect_bind {g : α → Durable Disk Memory ε β} {post : β → Disk → Memory → Prop}
    (hfailed : failed d m) (hok : ∀ a, f d m = .ok a → Ensures safe failed (g a) post d m) :
    Ensures safe failed (inspect f >>= g) post d m :=
  ensures_bind (ensures_inspect hok fun _ _ => hfailed)

theorem ensures_write {f : Disk → Except ε (α × Disk)}
    (hok : ∀ a d', f d = .ok (a, d') → safe d' ∧ post a d' m)
    (herror : ∀ e, f d = .error e → failed d m) :
    Ensures safe failed (write f : Durable Disk Memory ε α) post d m := by
  cases hf : f d with
  | error e =>
    have hout : (write f : Durable Disk Memory ε α) d m = ⟨.error e, d, m, []⟩ := by rw [write, hf]
    constructor <;> rw [hout]
    · simp
    · exact fun _ hok => nomatch hok
    · exact fun _ _ => herror e hf
  | ok result =>
    obtain ⟨a, d'⟩ := result
    have hout : (write f : Durable Disk Memory ε α) d m = ⟨.ok a, d', m, [d']⟩ := by rw [write, hf]
    obtain ⟨hsafe, hpost⟩ := hok a d' hf
    constructor <;> rw [hout]
    · simpa using hsafe
    · intro _ ha
      cases ha
      exact hpost
    · exact fun _ he => nomatch he

theorem ensures_remember {f : Memory → Memory} {post : Unit → Disk → Memory → Prop}
    (h : post () d (f m)) :
    Ensures safe failed (remember f : Durable Disk Memory ε Unit) post d m where
  written := by simp [remember]
  returned _ _ := h
  failed e he := by cases he

theorem ensures_remember_bind {f : Memory → Memory} {g : Unit → Durable Disk Memory ε β}
    {post : β → Disk → Memory → Prop} (h : Ensures safe failed (g ()) post d (f m)) :
    Ensures safe failed (remember f >>= g) post d m :=
  ensures_bind (ensures_remember h)

theorem ensures_attempt (failed' : Disk → Memory → Prop) {post : Except ε α → Disk → Memory → Prop}
    (h : Ensures safe failed' x (fun a => post (.ok a)) d m)
    (herror : ∀ e d m, failed' d m → post (.error e) d m) :
    Ensures safe failed (attempt x) post d m where
  written := h.written
  returned := by
    intro result hresult
    cases hresult
    cases hx : (x d m).result with
    | ok a => exact h.returned a hx
    | error e => exact herror e _ _ (h.failed e hx)
  failed e he := by cases he

/-- A loop keeps a condition on what is left to do. -/
theorem ensures_each {f : α → Durable Disk Memory ε Unit} {xs : List α}
    (inv : List α → Disk → Memory → Prop) (hstep : ∀ x rest d m, inv (x :: rest) d m →
      Ensures safe failed (f x) (fun _ => inv rest) d m) (hinit : inv xs d m) :
    Ensures safe failed (each f xs) (fun _ => inv []) d m := by
  induction xs generalizing d m with
  | nil => exact ensures_pure hinit
  | cons x rest ih =>
    apply ensures_bind
    exact (hstep x rest d m hinit).mono fun _ _ _ hrest => ih hrest

/-- What holds at the end of a call, however it ended. -/
theorem Ensures.ended (inv : Disk → Memory → Prop) (h : Ensures safe failed x post d m)
    (hreturned : ∀ a d m, post a d m → inv d m) (hfailed : ∀ d m, failed d m → inv d m) :
    inv (x d m).disk (x d m).memory := by
  cases hresult : (x d m).result with
  | ok a => exact hreturned a _ _ (h.returned a hresult)
  | error e => exact hfailed _ _ (h.failed e hresult)

/-- A crash finds a safe disk. -/
theorem Ensures.safe_diskAfter (h : Ensures safe failed x post d m) (hstart : safe d)
    (hend : safe (x d m).disk) (writes : Nat) : safe (x.diskAfter writes d m) := by
  unfold diskAfter
  rw [List.getD_eq_getElem?_getD]
  cases hget : (d :: (x d m).written)[writes]? with
  | none => exact hend
  | some d' =>
    rcases List.mem_cons.mp (List.mem_of_getElem? hget) with rfl | hwritten
    · exact hstart
    · exact h.written d' hwritten

end Durable

end Bridget.Foundation
