import Mathlib.Data.Set.Basic
import NNIS.Parallel.Thread

/-!
# Footprints of threads

A footprint bounds the cells that a thread reads and writes in a phase, whatever values it reads. A
thread follows a list of footprints when each of its phases keeps to the next one. The rules follow
the way a thread is composed: a part without barriers keeps to one footprint, and a loop that waits
in every round to one footprint for each round.

## Main definitions

* `Footprint`, `Thread.Within`, `Thread.Begins`, `Thread.Follows`.
* `Thread.Performs` — an access that a thread performs in a phase whatever it reads.

## Main results

* `Thread.Within.bind_follows`, `Thread.follows_forEach_barrier`, `Thread.follows_fold` — the rules
  of `Thread.Follows`.
* `Thread.Begins.advance_congr`, `Thread.Begins.advance_frame` — a part of a phase depends on the
  cells that it reads and changes only those that it writes.
-/

set_option autoImplicit false

namespace NNIS

/-- Cells that may be read and cells that may be written. -/
structure Footprint (C : Type) where
  reads : Set C
  writes : Set C

namespace Thread

variable {C : Type} {Val : C → Type} {α β ι : Type}

/-- A part without barriers that keeps to a footprint. -/
def Within (f : Footprint C) : Thread C Val α → Prop
  | .pure _ => True
  | .read c k => c ∈ f.reads ∧ ∀ v, (k v).Within f
  | .write c _ k => c ∈ f.writes ∧ k.Within f
  | .sync _ => False

/-- The part up to the next barrier keeps to a footprint. -/
def Begins (f : Footprint C) : Thread C Val α → Prop
  | .pure _ => True
  | .read c k => c ∈ f.reads ∧ ∀ v, (k v).Begins f
  | .write c _ k => c ∈ f.writes ∧ k.Begins f
  | .sync _ => True

/-- Each phase keeps to the next footprint; the result and the footprints left over satisfy a
condition. -/
def Follows : Thread C Val α → List (Footprint C) → (α → List (Footprint C) → Prop) → Prop
  | .pure a, fps, post => post a fps
  | .read _ _, [], _ => False
  | .read c k, f :: fps, post => c ∈ f.reads ∧ ∀ v, (k v).Follows (f :: fps) post
  | .write _ _ _, [], _ => False
  | .write c _ k, f :: fps, post => c ∈ f.writes ∧ k.Follows (f :: fps) post
  | .sync _, [], _ => False
  | .sync k, _ :: fps, post => k.Follows fps post

/-- Whatever is read, an access is performed in the phase with a number, or the result and the
number of phases left satisfy a condition. -/
def Performs (a : Access C) : Thread C Val α → ℕ → (α → ℕ → Prop) → Prop
  | .pure r, n, post => post r n
  | .read c k, n, post => (n = 0 ∧ a = .read c) ∨ ∀ v, (k v).Performs a n post
  | .write c _ k, n, post => (n = 0 ∧ a = .write c) ∨ k.Performs a n post
  | .sync _, 0, _ => False
  | .sync k, n + 1, post => k.Performs a n post

/-- All phases are over. -/
def Done (_ : α) (fps : List (Footprint C)) : Prop := fps.length = 1

/-! ### Parts without barriers -/

section Within

variable {f : Footprint C}

theorem Within.pure (a : α) : (Pure.pure a : Thread C Val α).Within f := trivial

theorem Within.load {c : C} (h : c ∈ f.reads) : (load c : Thread C Val (Val c)).Within f :=
  ⟨h, fun _ => trivial⟩

theorem Within.store {c : C} {v : Val c} (h : c ∈ f.writes) :
    (store c v : Thread C Val Unit).Within f := ⟨h, trivial⟩

theorem Within.bind {p : Thread C Val α} {k : α → Thread C Val β} (hp : p.Within f)
    (hk : ∀ a, (k a).Within f) : (p >>= k).Within f := by
  induction p with
  | pure a => exact hk a
  | read c k' ih => exact ⟨hp.1, fun v => ih v (hp.2 v)⟩
  | write c v k' ih => exact ⟨hp.1, ih hp.2⟩
  | sync k' => exact hp.elim

theorem Within.mono {g : Footprint C} {p : Thread C Val α} (h : p.Within f)
    (hreads : ∀ c ∈ f.reads, c ∈ g.reads) (hwrites : ∀ c ∈ f.writes, c ∈ g.writes) :
    p.Within g := by
  induction p with
  | pure a => exact trivial
  | read c k ih => exact ⟨hreads c h.1, fun v => ih v (h.2 v)⟩
  | write c v k ih => exact ⟨hwrites c h.1, ih h.2⟩
  | sync k => exact h.elim

theorem Within.forEach {l : List ι} {body : ι → Thread C Val Unit}
    (h : ∀ i ∈ l, (body i).Within f) : (forEach l body).Within f := by
  induction l with
  | nil => exact trivial
  | cons i l ih =>
    exact (h i List.mem_cons_self).bind fun _ => ih fun j hj => h j (List.mem_cons_of_mem i hj)

theorem Within.fold {l : List ι} {a : α} {body : α → ι → Thread C Val α}
    (h : ∀ a, ∀ i ∈ l, (body a i).Within f) : (fold l a body).Within f := by
  induction l generalizing a with
  | nil => exact trivial
  | cons i l ih =>
    exact (h a i List.mem_cons_self).bind fun a' =>
      ih fun a j hj => h a j (List.mem_cons_of_mem i hj)

theorem Within.ite {b : Prop} [Decidable b] {p q : Thread C Val α} (hp : b → p.Within f)
    (hq : ¬ b → q.Within f) : (if b then p else q).Within f := by
  split_ifs with h
  · exact hp h
  · exact hq h

theorem Within.follows {p : Thread C Val α} {fps : List (Footprint C)}
    {post : α → List (Footprint C) → Prop} (hp : p.Within f) (hpost : ∀ a, post a (f :: fps)) :
    p.Follows (f :: fps) post := by
  induction p with
  | pure a => exact hpost a
  | read c k ih => exact ⟨hp.1, fun v => ih v (hp.2 v)⟩
  | write c v k ih => exact ⟨hp.1, ih hp.2⟩
  | sync k => exact hp.elim

theorem Within.bind_performs {a : Access C} {n : ℕ} {p : Thread C Val α}
    {k : α → Thread C Val β} {post : β → ℕ → Prop} (hp : p.Within f)
    (hk : ∀ r, (k r).Performs a n post) : (p >>= k).Performs a n post := by
  induction p with
  | pure r => exact hk r
  | read c k' ih => exact Or.inr fun v => ih v (hp.2 v)
  | write c v k' ih => exact Or.inr (ih hp.2)
  | sync k' => exact hp.elim

end Within

/-! ### Phases -/

theorem Follows.mono {p : Thread C Val α} {fps : List (Footprint C)}
    {post post' : α → List (Footprint C) → Prop} (h : p.Follows fps post)
    (hpost : ∀ a fps, post a fps → post' a fps) : p.Follows fps post' := by
  induction p generalizing fps with
  | pure a => exact hpost a fps h
  | read c k ih =>
    cases fps with
    | nil => exact h.elim
    | cons f fps => exact ⟨h.1, fun v => ih v (h.2 v)⟩
  | write c v k ih =>
    cases fps with
    | nil => exact h.elim
    | cons f fps => exact ⟨h.1, ih h.2⟩
  | sync k ih =>
    cases fps with
    | nil => exact h.elim
    | cons f fps => exact ih h

theorem Follows.bind {p : Thread C Val α} {k : α → Thread C Val β} {fps : List (Footprint C)}
    {post : β → List (Footprint C) → Prop}
    (h : p.Follows fps fun a fps => (k a).Follows fps post) : (p >>= k).Follows fps post := by
  induction p generalizing fps with
  | pure a => exact h
  | read c k' ih =>
    cases fps with
    | nil => exact h.elim
    | cons f fps => exact ⟨h.1, fun v => ih v (h.2 v)⟩
  | write c v k' ih =>
    cases fps with
    | nil => exact h.elim
    | cons f fps => exact ⟨h.1, ih h.2⟩
  | sync k' ih =>
    cases fps with
    | nil => exact h.elim
    | cons f fps => exact ih h

theorem Within.bind_follows {f : Footprint C} {p : Thread C Val α} {k : α → Thread C Val β}
    {fps : List (Footprint C)} {post : β → List (Footprint C) → Prop} (hp : p.Within f)
    (hk : ∀ a, (k a).Follows (f :: fps) post) : (p >>= k).Follows (f :: fps) post :=
  .bind (hp.follows hk)

theorem follows_barrier_bind {k : Unit → Thread C Val β} {f : Footprint C}
    {fps : List (Footprint C)} {post : β → List (Footprint C) → Prop}
    (h : (k ()).Follows fps post) : (barrier >>= k : Thread C Val β).Follows (f :: fps) post := h

/-- A loop each round of which ends at a barrier. -/
theorem follows_forEach_barrier {l : List ι} {fp : ι → Footprint C}
    {body : ι → Thread C Val Unit} (h : ∀ i ∈ l, (body i).Within (fp i))
    {fps : List (Footprint C)} {post : Unit → List (Footprint C) → Prop} (hpost : post () fps) :
    (forEach l fun i => do body i; barrier).Follows (l.map fp ++ fps) post := by
  induction l with
  | nil => exact hpost
  | cons i l ih =>
    refine Follows.bind ((h i List.mem_cons_self).bind_follows fun _ => ?_)
    exact ih fun j hj => h j (List.mem_cons_of_mem i hj)

/-- A loop each round of which begins and ends in phases with one footprint. -/
theorem follows_fold {l : List ι} {fp : ι → List (Footprint C)} {f : Footprint C}
    {body : α → ι → Thread C Val α}
    (h : ∀ a, ∀ i ∈ l, ∀ fps, (body a i).Follows (f :: (fp i ++ f :: fps)) fun _ fps' =>
      fps' = f :: fps)
    {a : α} {fps : List (Footprint C)} {post : α → List (Footprint C) → Prop}
    (hpost : ∀ a, post a (f :: fps)) :
    (fold l a body).Follows (f :: (l.flatMap (fun i => fp i ++ [f]) ++ fps)) post := by
  induction l generalizing a with
  | nil => exact hpost a
  | cons i l ih =>
    have hfps : fp i ++ f :: (l.flatMap (fun i => fp i ++ [f]) ++ fps) =
        (i :: l).flatMap (fun i => fp i ++ [f]) ++ fps := by
      rw [List.flatMap_cons, List.append_assoc, List.append_assoc, List.singleton_append]
    rw [← hfps]
    refine Follows.bind ((h a i List.mem_cons_self _).mono fun a' fps' hfps' => ?_)
    rw [hfps']
    exact ih fun a j hj => h a j (List.mem_cons_of_mem i hj)

theorem Performs.bind {a : Access C} {p : Thread C Val α} {k : α → Thread C Val β} {n : ℕ}
    {post : β → ℕ → Prop} (h : p.Performs a n fun r n => (k r).Performs a n post) :
    (p >>= k).Performs a n post := by
  induction p generalizing n with
  | pure r => exact h
  | read c k' ih => exact h.imp_right fun h v => ih v (h v)
  | write c v k' ih => exact h.imp_right ih
  | sync k' ih =>
    cases n with
    | zero => exact h.elim
    | succ n => exact ih h

theorem performs_barrier_bind {a : Access C} {k : Unit → Thread C Val β} {n : ℕ}
    {post : β → ℕ → Prop} (h : (k ()).Performs a n post) :
    (barrier >>= k : Thread C Val β).Performs a (n + 1) post := h

/-- A loop each round of which ends at a barrier. -/
theorem performs_forEach_barrier {a : Access C} {l : List ι} {fp : ι → Footprint C}
    {body : ι → Thread C Val Unit} (h : ∀ i ∈ l, (body i).Within (fp i)) {n : ℕ}
    {post : Unit → ℕ → Prop} (hpost : post () n) :
    (forEach l fun i => do body i; barrier).Performs a (l.length + n) post := by
  induction l with
  | nil =>
    rw [List.length_nil, Nat.zero_add]
    exact hpost
  | cons i l ih =>
    rw [List.length_cons, Nat.add_right_comm]
    refine Performs.bind ((h i List.mem_cons_self).bind_performs fun _ => ?_)
    exact ih fun j hj => h j (List.mem_cons_of_mem i hj)

theorem Within.begins {f : Footprint C} {p : Thread C Val α} (h : p.Within f) : p.Begins f := by
  induction p with
  | pure a => exact trivial
  | read c k ih => exact ⟨h.1, fun v => ih v (h.2 v)⟩
  | write c v k ih => exact ⟨h.1, ih h.2⟩
  | sync k => exact h.elim

/-- A part that ends at a barrier. -/
theorem Within.begins_barrier {f : Footprint C} {p : Thread C Val α} (h : p.Within f)
    (k : α → Thread C Val β) : (p >>= fun a => barrier >>= fun _ => k a).Begins f := by
  induction p with
  | pure a => exact trivial
  | read c k' ih => exact ⟨h.1, fun v => ih v (h.2 v)⟩
  | write c v k' ih => exact ⟨h.1, ih h.2⟩
  | sync k' => exact h.elim

theorem Follows.begins {f : Footprint C} {fps : List (Footprint C)}
    {post : α → List (Footprint C) → Prop} {p : Thread C Val α} (h : p.Follows (f :: fps) post) :
    p.Begins f := by
  induction p with
  | pure a => exact trivial
  | read c k ih => exact ⟨h.1, fun v => ih v (h.2 v)⟩
  | write c v k ih => exact ⟨h.1, ih h.2⟩
  | sync k => exact trivial

/-! ### A part of a phase -/

section Advance

variable [DecidableEq C] {f : Footprint C} {fps : List (Footprint C)}
  {post : α → List (Footprint C) → Prop}

/-- After its part of a phase a thread follows the footprints left over, or is done. -/
theorem Follows.advance {p : Thread C Val α} (h : p.Follows (f :: fps) post)
    (m : (c : C) → Val c) :
    (∃ a, (p.advance m).1 = .pure a ∧ post a (f :: fps)) ∨ (p.advance m).1.Follows fps post := by
  induction p generalizing m with
  | pure a => exact Or.inl ⟨a, rfl, h⟩
  | read c k ih => exact ih (m c) (h.2 (m c)) m
  | write c v k ih => exact ih h.2 _
  | sync k => exact Or.inr h

/-- A part of a phase accesses the cells of its footprint. -/
theorem Follows.accesses {p : Thread C Val α} (h : p.Follows (f :: fps) post)
    (m : (c : C) → Val c) :
    (∀ c, .read c ∈ p.accesses m → c ∈ f.reads) ∧ ∀ c, .write c ∈ p.accesses m → c ∈ f.writes := by
  induction p generalizing m with
  | pure a => exact ⟨fun _ h => (nomatch h), fun _ h => nomatch h⟩
  | read c k ih =>
    obtain ⟨hreads, hwrites⟩ := ih (m c) (h.2 (m c)) m
    refine ⟨fun c' hc' => ?_, fun c' hc' => ?_⟩
    · rcases List.mem_cons.1 hc' with heq | hmem
      · exact Access.read.inj heq ▸ h.1
      · exact hreads c' hmem
    · rcases List.mem_cons.1 hc' with heq | hmem
      · exact nomatch heq
      · exact hwrites c' hmem
  | write c v k ih =>
    obtain ⟨hreads, hwrites⟩ := ih h.2 (Function.update m c v)
    refine ⟨fun c' hc' => ?_, fun c' hc' => ?_⟩
    · rcases List.mem_cons.1 hc' with heq | hmem
      · exact nomatch heq
      · exact hreads c' hmem
    · rcases List.mem_cons.1 hc' with heq | hmem
      · exact Access.write.inj heq ▸ h.1
      · exact hwrites c' hmem
  | sync k => exact ⟨fun _ h => (nomatch h), fun _ h => nomatch h⟩

/-- A part of a phase that keeps to a footprint changes only the cells that it writes. -/
theorem Begins.advance_frame {p : Thread C Val α} (h : p.Begins f) (m : (c : C) → Val c) {c : C}
    (hc : c ∉ f.writes) : (p.advance m).2 c = m c := by
  induction p generalizing m with
  | pure a => rfl
  | read c' k ih => exact ih (m c') (h.2 (m c')) m
  | write c' v k ih =>
    have hne : c ≠ c' := fun heq => hc (heq ▸ h.1)
    exact (ih h.2 _).trans (Function.update_of_ne hne ..)
  | sync k => rfl

/-- A part of a phase is the same over memories that agree on the cells that it reads. -/
theorem Begins.advance_congr {p : Thread C Val α} (h : p.Begins f) {m m' : (c : C) → Val c}
    (hm : ∀ c ∈ f.reads, m c = m' c) :
    (p.advance m).1 = (p.advance m').1 ∧
      ∀ c, m c = m' c → (p.advance m).2 c = (p.advance m').2 c := by
  induction p generalizing m m' with
  | pure a => exact ⟨rfl, fun _ h => h⟩
  | read c k ih =>
    have hc : m c = m' c := hm c h.1
    rw [Thread.advance, Thread.advance, ← hc]
    exact ih (m c) (h.2 (m c)) hm
  | write c v k ih =>
    have hupdate : ∀ c', m c' = m' c' → Function.update m c v c' = Function.update m' c v c' := by
      intro c' hc'
      rcases eq_or_ne c' c with rfl | hne
      · rw [Function.update_self, Function.update_self]
      · rw [Function.update_of_ne hne, Function.update_of_ne hne, hc']
    obtain ⟨hthread, hmemory⟩ := ih h.2 fun c' hc' => hupdate c' (hm c' hc')
    exact ⟨hthread, fun c' hc' => hmemory c' (hupdate c' hc')⟩
  | sync k => exact ⟨rfl, fun _ h => h⟩

/-- An access of the current phase is performed; one of a later phase is still to come. -/
theorem Performs.advance {a : Access C} {p : Thread C Val α} {n : ℕ}
    (h : p.Performs a n fun _ _ => False) (m : (c : C) → Val c) :
    (n = 0 → a ∈ p.accesses m) ∧ ∀ k, n = k + 1 →
      (p.advance m).1.Performs a k fun _ _ => False := by
  induction p generalizing m with
  | pure r => exact h.elim
  | read c k ih =>
    rcases h with ⟨rfl, rfl⟩ | h
    · exact ⟨fun _ => List.mem_cons_self, fun _ h => nomatch h⟩
    · obtain ⟨hnow, hlater⟩ := ih (m c) (h (m c)) m
      exact ⟨fun hn => List.mem_cons_of_mem _ (hnow hn), hlater⟩
  | write c v k ih =>
    rcases h with ⟨rfl, rfl⟩ | h
    · exact ⟨fun _ => List.mem_cons_self, fun _ h => nomatch h⟩
    · obtain ⟨hnow, hlater⟩ := ih h (Function.update m c v)
      exact ⟨fun hn => List.mem_cons_of_mem _ (hnow hn), hlater⟩
  | sync k =>
    cases n with
    | zero => exact h.elim
    | succ n =>
      refine ⟨fun h => (nomatch h), fun k' hk' => ?_⟩
      obtain rfl := Nat.succ.inj hk'
      exact h

end Advance

end Thread

end NNIS
