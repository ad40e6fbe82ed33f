import Mathlib.Algebra.Group.Nat.Defs
import Mathlib.Tactic.SplitIfs

/-!
# Self-delimiting encodings

An encoder is self-delimiting when a reader of a stream knows where the encoding of a value ends:
two streams that begin with encodings are equal only if the values and the rests are. A sequence of
self-delimiting parts is self-delimiting, also when a part says how the next one is encoded; so a
list is made self-delimiting by its length, and an option by a tag.

## Main definitions

* `SelfDelimiting` — encodings that can be told apart in front of any rest.
* `leBytes` — little-endian integers.

## Main results

* `SelfDelimiting.of_length`, `SelfDelimiting.comap`, `SelfDelimiting.bind`,
  `SelfDelimiting.flatMap` — ways to make self-delimiting encoders.
* `SelfDelimiting.counted` — lists behind their length.
* `selfDelimiting_leBytes`.
-/

set_option autoImplicit false

namespace NNIS

universe u v w

variable {α : Type u} {β : Type v} {γ : Type w}

/-- The encodings of the values with a property can be told apart in front of any rest. -/
def SelfDelimiting (P : α → Prop) (enc : α → List β) : Prop :=
  ∀ ⦃a a'⦄, P a → P a' → ∀ ⦃rest rest'⦄, enc a ++ rest = enc a' ++ rest' → a = a' ∧ rest = rest'

namespace SelfDelimiting

variable {P : α → Prop} {enc : α → List β}

theorem inj (h : SelfDelimiting P enc) {a a' : α} (ha : P a) (ha' : P a') (heq : enc a = enc a') :
    a = a' :=
  (h ha ha' (congrArg (· ++ []) heq)).1

theorem congr (h : SelfDelimiting P enc) {enc' : α → List β} (heq : ∀ a, enc a = enc' a) :
    SelfDelimiting P enc' :=
  (funext heq : enc = enc') ▸ h

/-- Encodings of one length that determine the value. -/
theorem of_length (n : ℕ) (hlen : ∀ a, P a → (enc a).length = n)
    (hinj : ∀ a a', P a → P a' → enc a = enc a' → a = a') : SelfDelimiting P enc := by
  intro a a' ha ha' rest rest' h
  obtain ⟨henc, hrest⟩ := List.append_inj h ((hlen a ha).trans (hlen a' ha').symm)
  exact ⟨hinj a a' ha ha' henc, hrest⟩

/-- An encoding of what determines the value. -/
theorem comap (h : SelfDelimiting P enc) {Q : γ → Prop} (f : γ → α) (hf : ∀ c, Q c → P (f c))
    (hinj : ∀ c c', Q c → Q c' → f c = f c' → c = c') :
    SelfDelimiting Q fun c => enc (f c) := by
  intro c c' hc hc' rest rest' heq
  obtain ⟨hval, hrest⟩ := h (hf c hc) (hf c' hc') heq
  exact ⟨hinj c c' hc hc' hval, hrest⟩

/-- A part that says how the next one is encoded. -/
theorem bind (h : SelfDelimiting P enc) {Q : α → γ → Prop} {next : α → γ → List β}
    (hnext : ∀ a, P a → SelfDelimiting (Q a) (next a)) :
    SelfDelimiting (fun p : α × γ => P p.1 ∧ Q p.1 p.2) fun p => enc p.1 ++ next p.1 p.2 := by
  rintro ⟨a, c⟩ ⟨a', c'⟩ ⟨ha, hc⟩ ⟨ha', hc'⟩ rest rest' heq
  rw [List.append_assoc, List.append_assoc] at heq
  obtain ⟨rfl, htail⟩ := h ha ha' heq
  obtain ⟨rfl, hrest⟩ := hnext a ha hc hc' htail
  exact ⟨rfl, hrest⟩

/-- Two parts one after the other. -/
theorem prod (h : SelfDelimiting P enc) {Q : γ → Prop} {enc' : γ → List β}
    (h' : SelfDelimiting Q enc') :
    SelfDelimiting (fun p : α × γ => P p.1 ∧ Q p.2) fun p => enc p.1 ++ enc' p.2 :=
  h.bind fun _ _ => h'

/-- Lists of a known length. -/
theorem flatMap (h : SelfDelimiting P enc) (n : ℕ) :
    SelfDelimiting (fun l : List α => l.length = n ∧ ∀ a ∈ l, P a) fun l => l.flatMap enc := by
  induction n with
  | zero =>
    rintro l l' ⟨hl, -⟩ ⟨hl', -⟩ rest rest' heq
    rw [List.length_eq_zero_iff.1 hl, List.length_eq_zero_iff.1 hl'] at heq ⊢
    exact ⟨rfl, heq⟩
  | succ n ih =>
    rintro l l' ⟨hl, hP⟩ ⟨hl', hP'⟩ rest rest' heq
    obtain ⟨a, l, rfl⟩ := List.exists_cons_of_length_eq_add_one hl
    obtain ⟨a', l', rfl⟩ := List.exists_cons_of_length_eq_add_one hl'
    simp only [List.flatMap_cons, List.append_assoc] at heq
    rw [List.forall_mem_cons] at hP hP'
    obtain ⟨rfl, htail⟩ := h hP.1 hP'.1 heq
    obtain ⟨rfl, hrest⟩ := ih ⟨Nat.succ.inj hl, hP.2⟩ ⟨Nat.succ.inj hl', hP'.2⟩ htail
    exact ⟨rfl, hrest⟩

/-- Lists behind an encoding of their length. -/
theorem counted (h : SelfDelimiting P enc) {count : ℕ → List β} {R : ℕ → Prop}
    (hcount : SelfDelimiting R count) :
    SelfDelimiting (fun l : List α => R l.length ∧ ∀ a ∈ l, P a)
      fun l => count l.length ++ l.flatMap enc :=
  (hcount.bind fun n _ => h.flatMap n).comap (fun l : List α => (l.length, l))
    (fun _ hl => ⟨hl.1, rfl, hl.2⟩) fun _ _ _ _ heq => congrArg Prod.snd heq

end SelfDelimiting

/-! ### Little-endian integers -/

/-- The `width` low bytes of a number, the lowest first. -/
def leBytes : (width : ℕ) → ℕ → List UInt8
  | 0, _ => []
  | width + 1, n => UInt8.ofNat n :: leBytes width (n / 2 ^ 8)

@[simp] theorem length_leBytes (width n : ℕ) : (leBytes width n).length = width := by
  induction width generalizing n with
  | zero => rfl
  | succ width ih => rw [leBytes, List.length_cons, ih]

theorem leBytes_inj {width n m : ℕ} (hn : n < 2 ^ (8 * width)) (hm : m < 2 ^ (8 * width))
    (h : leBytes width n = leBytes width m) : n = m := by
  induction width generalizing n m with
  | zero => exact (Nat.lt_one_iff.1 hn).trans (Nat.lt_one_iff.1 hm).symm
  | succ width ih =>
    rw [leBytes, leBytes] at h
    obtain ⟨hlow, hhigh⟩ := List.cons.inj h
    have hpow : 2 ^ (8 * (width + 1)) = 2 ^ 8 * 2 ^ (8 * width) := by
      rw [← Nat.pow_add, Nat.mul_succ, Nat.add_comm]
    have hlow' := congrArg UInt8.toNat hlow
    rw [UInt8.toNat_ofNat', UInt8.toNat_ofNat'] at hlow'
    have hdiv := ih (Nat.div_lt_of_lt_mul (hpow ▸ hn)) (Nat.div_lt_of_lt_mul (hpow ▸ hm)) hhigh
    rw [← Nat.div_add_mod n (2 ^ 8), ← Nat.div_add_mod m (2 ^ 8), hlow', hdiv]

/-- Integers of a fixed width are self-delimiting. -/
theorem selfDelimiting_leBytes (width : ℕ) :
    SelfDelimiting (fun n => n < 2 ^ (8 * width)) (leBytes width) :=
  .of_length width (fun n _ => length_leBytes width n) fun _ _ hn hm h => leBytes_inj hn hm h

/-- A single element is self-delimiting. -/
theorem selfDelimiting_singleton (β : Type v) :
    SelfDelimiting (fun _ : β => True) fun b => [b] :=
  .of_length 1 (fun _ _ => rfl) fun _ _ _ _ h => (List.cons.inj h).1

/-- A tag that tells the values apart is self-delimiting. -/
theorem selfDelimiting_tag {tag : α → β} (h : Function.Injective tag) :
    SelfDelimiting (fun _ : α => True) fun a => [tag a] :=
  (selfDelimiting_singleton β).comap tag (fun _ _ => trivial) fun _ _ _ _ heq => h heq

end NNIS
