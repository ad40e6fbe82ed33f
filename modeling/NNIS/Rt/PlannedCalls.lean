import Mathlib.Data.List.Count
import Mathlib.Tactic.SplitIfs
import NNIS.Rt.Driver

/-!
# Planned calls

The calls that a computation makes when the driver accepts all of them are its *plan*. A driver cuts
a plan short at the first call that it refuses; which calls of a plan it admits depends on the
driver and on the calls before, and on nothing that the computation does.

A computation *follows* a plan when it makes just these calls if it returns, and the admitted ones,
and after them only calls of a given kind, if it fails.

## Main definitions

* `Stream.admitted` — the calls of a plan before the first refused one.
* `Stream.Completed`, `Stream.CutShort` — the two outcomes of a plan.
* `Stream.Follows` — a computation follows a plan.

## Main results

* `Stream.Follows.bind`, `Stream.Follows.foldRange`, `Stream.Follows.zoom` — plans of composed
  computations.
* `Stream.CutShort.accepted_eq` — what a plan cut short adds to the accepted calls from a site.
-/

set_option autoImplicit false

namespace NNIS

namespace Stream

variable {kind : CallRecord → Prop} {before after plan : List CallSite} {s s₀ s₁ : Stream}

/-- The stream after calls from some sites that have all been accepted. -/
def made (sites : List CallSite) (s : Stream) : Stream :=
  { s with history := (sites.map (·, true)).reverse ++ s.history }

/-- The calls of a plan before the first one that the driver refuses. -/
def admitted : Stream → List CallSite → List CallSite
  | _, [] => []
  | s, site :: plan => if s.driver s.history site = none then
      site :: (s.made [site]).admitted plan else []

theorem made_append (before after : List CallSite) (s : Stream) :
    s.made (before ++ after) = (s.made before).made after := by
  simp only [made, List.map_append, List.reverse_append, List.append_assoc]

theorem accepted_made (plan : List CallSite) (s : Stream) (site : CallSite) :
    (s.made plan).accepted site = s.accepted site + plan.count site := by
  have hinj : Function.Injective fun site : CallSite => (site, true) := fun _ _ h =>
    congrArg Prod.fst h
  rw [accepted, made, List.count_append, List.count_reverse,
    List.count_map_of_injective _ _ hinj, Nat.add_comm]
  rfl

/-- A plan is admitted up to a part of it, and from there on if all of that part is. -/
theorem admitted_append (before after : List CallSite) (s : Stream) :
    s.admitted (before ++ after) = if s.admitted before = before
      then before ++ (s.made before).admitted after else s.admitted before := by
  induction before generalizing s with
  | nil => rfl
  | cons site before ih =>
    rw [List.cons_append, admitted, admitted]
    split_ifs with haccepted hcons hcons
    · rw [ih, if_pos (List.cons.inj hcons).2, ← made_append]
      rfl
    · rw [ih, if_neg fun h => hcons (congrArg _ h)]
    · cases hcons
    · rfl

theorem admitted_isPrefix (plan : List CallSite) (s : Stream) : s.admitted plan <+: plan := by
  induction plan generalizing s with
  | nil => exact List.prefix_rfl
  | cons site plan ih =>
    rw [admitted]
    split_ifs
    · exact (List.prefix_cons_inj site).2 (ih _)
    · exact List.nil_prefix

/-! ### Outcomes -/

/-- All calls of a plan have been accepted. -/
structure Completed (plan : List CallSite) (s₀ s : Stream) : Prop where
  admitted_eq : s₀.admitted plan = plan
  made_eq : s = s₀.made plan

/-- A call of a plan has been refused, and only calls of a kind have been made since. -/
structure CutShort (kind : CallRecord → Prop) (plan : List CallSite) (s₀ s : Stream) : Prop where
  admitted_ne : s₀.admitted plan ≠ plan
  since : Since kind (s₀.made (s₀.admitted plan)) s

namespace Completed

theorem refl (s : Stream) : Completed [] s s := ⟨rfl, rfl⟩

theorem append (h : Completed before s₀ s₁) (h' : Completed after s₁ s) :
    Completed (before ++ after) s₀ s where
  admitted_eq := by
    rw [admitted_append, if_pos h.admitted_eq, ← h.made_eq, h'.admitted_eq]
  made_eq := by rw [made_append, ← h.made_eq, h'.made_eq]

theorem append_cutShort (h : Completed before s₀ s₁) (h' : CutShort kind after s₁ s) :
    CutShort kind (before ++ after) s₀ s where
  admitted_ne := by
    rw [admitted_append, if_pos h.admitted_eq, ← h.made_eq]
    exact fun he => h'.admitted_ne (List.append_cancel_left he)
  since := by
    rw [admitted_append, if_pos h.admitted_eq, ← h.made_eq, made_append, ← h.made_eq]
    exact h'.since

theorem accepted_eq (h : Completed plan s₀ s) (site : CallSite) :
    s.accepted site = s₀.accepted site + (s₀.admitted plan).count site := by
  rw [h.made_eq, accepted_made, h.admitted_eq]

end Completed

namespace CutShort

theorem append (h : CutShort kind before s₀ s) (after : List CallSite) :
    CutShort kind (before ++ after) s₀ s where
  admitted_ne := by
    rw [admitted_append, if_neg h.admitted_ne]
    intro he
    have hle := (admitted_isPrefix before s₀).length_le
    rw [he, List.length_append] at hle
    have hafter : after = [] := List.length_eq_zero_iff.1 (by omega)
    rw [hafter, List.append_nil] at he
    exact h.admitted_ne he
  since := by
    rw [admitted_append, if_neg h.admitted_ne]
    exact h.since

theorem trans (h : CutShort kind plan s₀ s₁) (hs : Since kind s₁ s) : CutShort kind plan s₀ s :=
  ⟨h.admitted_ne, h.since.trans hs⟩

/-- A plan cut short has made the admitted ones of its accepted calls from a site. -/
theorem accepted_eq (h : CutShort kind plan s₀ s) {site : CallSite} (hk : ¬ kind (site, true)) :
    s.accepted site = s₀.accepted site + (s₀.admitted plan).count site := by
  rw [h.since.accepted_eq hk, accepted_made]

end CutShort

/-! ### Computations that follow a plan -/

variable {σ τ α β : Type} {view : σ → Stream}

/-- Run from a state, a computation makes the calls of a plan. The streams of its states are seen
through `view`. -/
def Follows (kind : CallRecord → Prop) (view : σ → Stream) (m : Fallible σ NnisError α) (x : σ)
    (plan : List CallSite) : Prop :=
  Fallible.Spec (fun y => y = x) m (fun _ y => Completed plan (view x) (view y))
    fun _ y => CutShort kind plan (view x) (view y)

/-- The stream when a computation that follows a plan has ended. -/
def Ended (kind : CallRecord → Prop) (plan : List CallSite) (s₀ : Stream) (s : Stream) :
    Except NnisError α → Prop
  | .ok _ => Completed plan s₀ s
  | .error _ => CutShort kind plan s₀ s

/-- A call follows itself. -/
theorem call_follows (site : CallSite) (s : Stream) (hkind : kind (site, false)) :
    Follows kind (fun s => s) (call site) s [site] := by
  intro x hx
  subst hx
  cases h : x.driver x.history site with
  | none =>
    simp only [call, h, Fallible.Post]
    exact ⟨if_pos h, rfl⟩
  | some error =>
    have hrefused : x.admitted [site] = [] := by
      rw [admitted, if_neg (h ▸ Option.some_ne_none error)]
    simp only [call, h, Fallible.Post]
    refine ⟨fun he => ?_, ?_⟩
    · rw [hrefused] at he
      cases he
    · rw [hrefused]
      exact ⟨rfl, [(site, false)], rfl, fun r hr => List.mem_singleton.1 hr ▸ hkind⟩

namespace Follows

variable {m : Fallible σ NnisError α} {x : σ}

theorem pure (a : α) (x : σ) : Follows kind view (Pure.pure a) x [] :=
  Fallible.Spec.pure a fun _ hy => hy ▸ Completed.refl _

theorem modify (f : σ → σ) (x : σ) (hf : view (f x) = view x) :
    Follows kind view (Fallible.modify f) x [] :=
  Fallible.Spec.modify f fun y hy => by
    subst hy
    rw [hf]
    exact Completed.refl _

theorem bind {f : α → Fallible σ NnisError β} (hm : Follows kind view m x before)
    (hf : ∀ a y, m.run x = (.ok a, y) → Follows kind view (f a) y after) :
    Follows kind view (m >>= f) x (before ++ after) := by
  intro y hy
  subst hy
  rcases hrun : m.run y with ⟨e | a, z⟩
  · rw [Fallible.run_bind_error hrun]
    exact (hm.error rfl hrun).append after
  · rw [Fallible.run_bind_ok hrun]
    have hbefore := hm.ok rfl hrun
    exact Fallible.Post.imp (fun _ _ h => hbefore.append h) (fun _ _ h => hbefore.append_cutShort h)
      (hf a _ hrun _ rfl)

/-- After a computation that makes no calls of the plan. -/
theorem bind_nil {f : α → Fallible σ NnisError β} (hm : Follows kind view m x [])
    (hf : ∀ a y, m.run x = (.ok a, y) → Follows kind view (f a) y plan) :
    Follows kind view (m >>= f) x plan :=
  hm.bind hf

/-- Before a computation that makes no calls of the plan. -/
theorem bind_end {f : α → Fallible σ NnisError β} (hm : Follows kind view m x plan)
    (hf : ∀ a y, m.run x = (.ok a, y) → Follows kind view (f a) y []) :
    Follows kind view (m >>= f) x plan := by
  have h := hm.bind hf
  rwa [List.append_nil] at h

theorem get_bind {f : σ → Fallible σ NnisError β} (h : Follows kind view (f x) x plan) :
    Follows kind view (Fallible.get >>= f) x plan :=
  Fallible.Spec.get_bind h

theorem attempt {E : NnisError → σ → Prop} (h : Follows kind view m x plan) :
    Fallible.Spec (fun y => y = x) m.attempt
      (fun r y => Ended kind plan (view x) (view y) r) E :=
  Fallible.Spec.attempt h

/-- A computation on a part of the state that holds the stream. -/
theorem zoom {part : σ → τ} {update : τ → σ → σ} {m : Fallible τ NnisError α} (view' : τ → Stream)
    (hpart : view' (part x) = view x) (hupdate : ∀ t, view (update t x) = view' t)
    (h : Follows kind view' m (part x) plan) : Follows kind view (m.zoom part update) x plan := by
  intro y hy
  subst hy
  rw [Fallible.run_zoom]
  rcases hrun : m.run (part y) with ⟨e | a, t⟩
  · have herror := h.error rfl hrun
    rw [hpart, ← hupdate] at herror
    exact herror
  · have hok := h.ok rfl hrun
    rw [hpart, ← hupdate] at hok
    exact hok

/-- The rounds of a loop follow their plans one after the other. -/
theorem foldRange {body : ℕ → α → Fallible σ NnisError α} (I : ℕ → α → σ → Prop)
    (plans : ℕ → List CallSite) (n : ℕ) (a : α) (hzero : I 0 a x)
    (h : ∀ i < n, ∀ b y, I i b y → Follows kind view (body i b) y (plans i) ∧
      ∀ c z, (body i b).run y = (.ok c, z) → I (i + 1) c z) :
    Follows kind view (Fallible.foldRange n a body) x ((List.range n).flatMap plans) ∧
      ∀ b y, (Fallible.foldRange n a body).run x = (.ok b, y) → I n b y := by
  induction n with
  | zero =>
    refine ⟨Follows.pure a x, fun b y hrun => ?_⟩
    cases hrun
    exact hzero
  | succ n ih =>
    obtain ⟨hfollows, hlast⟩ := ih fun i hi => h i (by omega)
    have hround {b : α} {y : σ} (hrun : (Fallible.foldRange n a body).run x = (.ok b, y)) :=
      h n (Nat.lt_succ_self n) b y (hlast b y hrun)
    refine ⟨?_, fun c z hrun => ?_⟩
    · rw [List.range_succ, List.flatMap_append, List.flatMap_singleton]
      exact hfollows.bind fun b y hrun => (hround hrun).1
    · rw [Fallible.foldRange] at hrun
      rcases hfold : (Fallible.foldRange n a body).run x with ⟨e | b, y⟩
      · rw [Fallible.run_bind_error hfold] at hrun
        cases hrun
      · rw [Fallible.run_bind_ok hfold] at hrun
        exact (hround hfold).2 c z hrun

/-- The elements of a list are visited by their plans one after the other. -/
theorem forEach {ι : Type} {body : ι → Fallible σ NnisError PUnit} (plans : ι → List CallSite)
    (l : List ι) (h : ∀ i ∈ l, ∀ y, Follows kind view (body i) y (plans i)) (x : σ) :
    Follows kind view (Fallible.forEach l body) x (l.flatMap plans) := by
  induction l generalizing x with
  | nil => exact Follows.pure PUnit.unit x
  | cons i l ih =>
    rw [List.flatMap_cons]
    exact (h i List.mem_cons_self x).bind fun _ y _ =>
      ih (fun j hj => h j (List.mem_cons_of_mem i hj)) y

end Follows

end Stream

end NNIS
