import Bridget.Foundation.Text

/-!
# Texts that can be read from the front

A value is readable when its text tells where it ends: two texts that begin with the texts of
valid values and are equal begin with the same value and continue in the same way. Readable
parts put one after the other are read one after the other.
-/

namespace Bridget.Foundation

variable {α β : Type}

/-- The texts of valid values can be read off the front of any text. -/
def Readable (encode : α → List β) (valid : α → Prop) : Prop :=
  ∀ ⦃a b : α⦄ ⦃rest rest' : List β⦄, valid a → valid b →
    encode a ++ rest = encode b ++ rest' → a = b ∧ rest = rest'

section

variable {encode : α → List β} {valid : α → Prop}

theorem Readable.of_length {n : Nat} (hlength : ∀ a, valid a → (encode a).length = n)
    (hinj : ∀ a b, valid a → valid b → encode a = encode b → a = b) : Readable encode valid := by
  intro a b _ _ ha hb h
  obtain ⟨hsame, hrest⟩ := List.append_inj h ((hlength a ha).trans (hlength b hb).symm)
  exact ⟨hinj a b ha hb hsame, hrest⟩

/-- As many texts as are announced are read one by one. -/
theorem Readable.flatMap (hread : Readable encode valid) {as bs : List α} {rest rest' : List β}
    (hlength : as.length = bs.length) (has : ∀ a ∈ as, valid a) (hbs : ∀ b ∈ bs, valid b)
    (h : as.flatMap encode ++ rest = bs.flatMap encode ++ rest') : as = bs ∧ rest = rest' := by
  induction as generalizing bs with
  | nil =>
    cases List.length_eq_zero_iff.mp hlength.symm
    exact ⟨rfl, h⟩
  | cons a _ ih =>
    cases bs with
    | nil => cases hlength
    | cons b =>
      rw [List.flatMap_cons, List.flatMap_cons, List.append_assoc, List.append_assoc] at h
      obtain ⟨rfl, htail⟩ := hread (has a List.mem_cons_self) (hbs b List.mem_cons_self) h
      obtain ⟨rfl, hrest⟩ := ih (Nat.succ.inj hlength)
        (fun a ha => has a (List.mem_cons_of_mem _ ha))
        (fun b hb => hbs b (List.mem_cons_of_mem _ hb)) htail
      exact ⟨rfl, hrest⟩

end

/-- `to_be_bytes` of a number of the given width. -/
def toBeBytes : Nat → Nat → Bytes
  | 0, _ => []
  | width + 1, value => toBeBytes width (value / 256) ++ [UInt8.ofNat (value % 256)]

theorem length_toBeBytes (width value : Nat) : (toBeBytes width value).length = width := by
  induction width generalizing value with
  | zero => rfl
  | succ _ ih => rw [toBeBytes, List.length_append, ih, List.length_singleton]

theorem toBeBytes_inj {width value value' : Nat} (h : value < 256 ^ width)
    (h' : value' < 256 ^ width) (heq : toBeBytes width value = toBeBytes width value') :
    value = value' := by
  induction width generalizing value value' with
  | zero => omega
  | succ _ ih =>
    obtain ⟨hhigh, hlow⟩ := List.append_inj' heq rfl
    have hquotient : value / 256 = value' / 256 := ih (by omega) (by omega) hhigh
    have hremainder : value % 256 = value' % 256 := by
      have hbyte := congrArg UInt8.toNat (List.singleton_inj.mp hlow)
      rw [UInt8.toNat_ofNat', UInt8.toNat_ofNat'] at hbyte
      omega
    omega

theorem readable_toBeBytes (width : Nat) :
    Readable (toBeBytes width) fun value => value < 256 ^ width :=
  .of_length (fun value _ => length_toBeBytes width value) fun _ _ h h' => toBeBytes_inj h h'

end Bridget.Foundation
