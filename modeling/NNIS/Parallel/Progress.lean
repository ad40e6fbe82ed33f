import NNIS.Parallel.Launch
import NNIS.Parallel.Schedule

/-!
# What a block leads to

A part of a thread between two barriers is a computation of its own: it has a result and leaves a
memory. A block leads to a condition if under every schedule some number of phases establishes it.
The rule of a phase runs the parts of all threads at once, each from the memory at the beginning of
the phase, when what they write is separate; it is followed by one for the last phase.

## Main definitions

* `Thread.eval` — the result of a part without barriers, and the memory it leaves.
* `Block.Leads` — under every schedule a block reaches a condition.

## Main results

* `Thread.eval_fold` — a loop whose rounds keep to separate cells.
* `Block.Leads.phase`, `Block.Leads.finish` — the rules of a phase and of the last one.
* `Block.BlockEffect.of_leads` — the effect of a block in a launch.
-/

set_option autoImplicit false

namespace NNIS

namespace Thread

variable {C : Type} {Val : C → Type} {α β ι : Type} [DecidableEq C]

/-- Run a thread by itself, through its barriers. -/
def eval : Thread C Val α → ((c : C) → Val c) → α × ((c : C) → Val c)
  | .pure a, m => (a, m)
  | .read c k, m => (k (m c)).eval m
  | .write c v k, m => k.eval (Function.update m c v)
  | .sync k, m => k.eval m

theorem eval_pure (a : α) (m : (c : C) → Val c) :
    (Pure.pure a : Thread C Val α).eval m = (a, m) := rfl

theorem eval_bind (p : Thread C Val α) (k : α → Thread C Val β) (m : (c : C) → Val c) :
    (p >>= k).eval m = (k (p.eval m).1).eval (p.eval m).2 := by
  induction p generalizing m with
  | pure a => rfl
  | read c k' ih => exact ih (m c) m
  | write c v k' ih => exact ih _
  | sync k' ih => exact ih m

/-! ### Parts without barriers -/

section Within

variable {f : Footprint C}

/-- A part that ends at a barrier. -/
theorem Within.advance_barrier {p : Thread C Val α} (h : p.Within f) (k : α → Thread C Val β)
    (m : (c : C) → Val c) :
    (p >>= fun a => barrier >>= fun _ => k a).advance m = (k (p.eval m).1, (p.eval m).2) := by
  induction p generalizing m with
  | pure a => rfl
  | read c k' ih => exact ih (m c) (h.2 (m c)) m
  | write c v k' ih => exact ih h.2 _
  | sync k' => exact h.elim

/-- A part at the end of a thread. -/
theorem Within.advance {p : Thread C Val α} (h : p.Within f) (m : (c : C) → Val c) :
    p.advance m = (.pure (p.eval m).1, (p.eval m).2) := by
  induction p generalizing m with
  | pure a => rfl
  | read c k ih => exact ih (m c) (h.2 (m c)) m
  | write c v k ih => exact ih h.2 _
  | sync k => exact h.elim

/-- A part changes only the cells that it writes. -/
theorem Within.eval_frame {p : Thread C Val α} (h : p.Within f) (m : (c : C) → Val c) {c : C}
    (hc : c ∉ f.writes) : (p.eval m).2 c = m c := by
  have hframe := h.begins.advance_frame m hc
  rwa [h.advance] at hframe

/-- A part is the same over memories that agree on the cells that it reads. -/
theorem Within.eval_congr {p : Thread C Val α} (h : p.Within f) {m m' : (c : C) → Val c}
    (hm : ∀ c ∈ f.reads, m c = m' c) :
    (p.eval m).1 = (p.eval m').1 ∧ ∀ c, m c = m' c → (p.eval m).2 c = (p.eval m').2 c := by
  have hcongr := h.begins.advance_congr hm
  rw [h.advance, h.advance] at hcongr
  exact ⟨Thread.pure.inj hcongr.1, hcongr.2⟩

end Within

/-- What a loop leaves whose rounds neither read nor write what an earlier round writes: every round
ran from the memory at the beginning. -/
theorem eval_fold {l : List ι} {f : ι → Footprint C} {round : ι → Thread C Val β}
    (hwithin : ∀ i ∈ l, (round i).Within (f i))
    (hseparate : l.Pairwise fun i j => ∀ c ∈ (f i).writes, c ∉ (f j).reads ∧ c ∉ (f j).writes)
    (step : α → β → α) (a : α) (m : (c : C) → Val c) :
    ((fold l a fun a i => do let b ← round i; return step a b).eval m).1 =
        l.foldl (fun a i => step a ((round i).eval m).1) a ∧
      (∀ i ∈ l, ∀ c ∈ (f i).writes,
        ((fold l a fun a i => do let b ← round i; return step a b).eval m).2 c =
          ((round i).eval m).2 c) ∧
      ∀ c, (∀ i ∈ l, c ∉ (f i).writes) →
        ((fold l a fun a i => do let b ← round i; return step a b).eval m).2 c = m c := by
  induction l generalizing a m with
  | nil => exact ⟨rfl, fun _ h => (nomatch h), fun _ _ => rfl⟩
  | cons i l ih =>
    obtain ⟨hbefore, hseparate⟩ := List.pairwise_cons.1 hseparate
    have hi := hwithin i List.mem_cons_self
    have hframe (c : C) (hc : c ∉ (f i).writes) : ((round i).eval m).2 c = m c :=
      hi.eval_frame m hc
    -- A later round reads and writes nothing that the first one writes.
    have hlater (j : ι) (hj : j ∈ l) : ((round j).eval ((round i).eval m).2).1 =
        ((round j).eval m).1 ∧ ∀ c ∈ (f j).writes,
          ((round j).eval ((round i).eval m).2).2 c = ((round j).eval m).2 c := by
      obtain ⟨hsame, hcells⟩ := (hwithin j (List.mem_cons_of_mem i hj)).eval_congr
        fun c hc => hframe c fun hwrite => (hbefore j hj c hwrite).1 hc
      exact ⟨hsame, fun c hc => hcells c (hframe c fun hwrite => (hbefore j hj c hwrite).2 hc)⟩
    obtain ⟨hresult, hwritten, hrest⟩ := ih (fun j hj => hwithin j (List.mem_cons_of_mem i hj))
      hseparate (step a ((round i).eval m).1) ((round i).eval m).2
    have heval : (fold (i :: l) a fun a i => do let b ← round i; return step a b).eval m =
        (fold l (step a ((round i).eval m).1) fun a i => do
          let b ← round i; return step a b).eval ((round i).eval m).2 := by
      rw [fold, eval_bind, eval_bind, eval_pure]
    rw [heval]
    refine ⟨?_, fun j hj c hc => ?_, fun c hc => ?_⟩
    · rw [hresult, List.foldl_cons]
      exact List.foldl_ext _ _ _ fun a j hj => by rw [(hlater j hj).1]
    · rcases List.mem_cons.1 hj with rfl | hj
      · exact hrest c fun u hu => (hbefore u hu c hc).2
      · rw [hwritten j hj c hc, (hlater j hj).2 c hc]
    · rw [hrest c fun j hj => hc j (List.mem_cons_of_mem i hj)]
      exact hframe c (hc i List.mem_cons_self)

omit [DecidableEq C] in
theorem bind_pure_unit (p : Thread C Val Unit) : (p >>= fun _ => Pure.pure ()) = p := by
  induction p with
  | pure a => rfl
  | read c k ih => exact congrArg (Thread.read c) (funext ih)
  | write c v k ih => exact congrArg (Thread.write c v) ih
  | sync k ih => exact congrArg Thread.sync ih

omit [DecidableEq C] in
theorem forEach_eq_fold (l : List ι) (body : ι → Thread C Val Unit) :
    forEach l body = fold l () fun _ i => do let _ ← body i; return () := by
  induction l with
  | nil => rfl
  | cons i l ih => rw [forEach, fold, bind_pure_unit, ih]

theorem eval_forEach {l : List ι} {f : ι → Footprint C} {round : ι → Thread C Val Unit}
    (hwithin : ∀ i ∈ l, (round i).Within (f i))
    (hseparate : l.Pairwise fun i j => ∀ c ∈ (f i).writes, c ∉ (f j).reads ∧ c ∉ (f j).writes)
    (m : (c : C) → Val c) :
    (∀ i ∈ l, ∀ c ∈ (f i).writes, ((forEach l round).eval m).2 c = ((round i).eval m).2 c) ∧
      ∀ c, (∀ i ∈ l, c ∉ (f i).writes) → ((forEach l round).eval m).2 c = m c := by
  rw [forEach_eq_fold]
  exact (eval_fold hwithin hseparate (fun _ _ => ()) () m).2

end Thread

namespace Block

variable {C : Type} {Val : C → Type} {α : Type} [DecidableEq C] {width : ℕ} {b : Block C Val α}
  {post : Block C Val α → Prop}

/-- Under every schedule some number of phases establishes a condition. -/
def Leads (width : ℕ) (b : Block C Val α) (post : Block C Val α → Prop) : Prop :=
  ∀ schedule, IsSchedule width schedule → ∃ n, post (run schedule b n)

theorem Leads.now (h : post b) : Leads width b post := fun _ _ => ⟨0, h⟩

theorem Leads.step
    (h : ∀ order : List ℕ, order.Perm (List.range width) → Leads width (b.phase order) post) :
    Leads width b post := by
  intro schedule hschedule
  obtain ⟨n, hn⟩ := h (schedule 0) (hschedule 0) (fun i => schedule (i + 1))
    fun i => hschedule (i + 1)
  refine ⟨n + 1, ?_⟩
  rw [run_succ]
  exact hn

/-- A phase whose parts keep to separate cells: every part runs from the memory at the beginning. -/
theorem Leads.phase {β : Type} {f : ℕ → Footprint C} {part : ℕ → Thread C Val β}
    {k : ℕ → β → Thread C Val α}
    (hthread : ∀ t < width, b.thread t = part t >>= fun a => Thread.barrier >>= fun _ => k t a)
    (hwithin : ∀ t < width, (part t).Within (f t)) (hseparate : Separate width f)
    (h : ∀ b' : Block C Val α,
      (∀ t < width, b'.thread t = k t ((part t).eval b.memory).1) →
      (∀ t < width, ∀ c ∈ (f t).writes, b'.memory c = ((part t).eval b.memory).2 c) →
      (∀ c, (∀ t < width, c ∉ (f t).writes) → b'.memory c = b.memory c) → Leads width b' post) :
    Leads width b post := by
  refine Leads.step fun order horder => ?_
  obtain ⟨hthreads, hwritten, hrest⟩ := phase_spec (hseparate.ordered horder) (nodup_order horder) b
    fun t ht => by
      rw [hthread t ((mem_order horder).1 ht)]
      exact (hwithin t ((mem_order horder).1 ht)).begins_barrier _
  have hadvance (t : ℕ) (ht : t < width) : (b.thread t).advance b.memory =
      (k t ((part t).eval b.memory).1, ((part t).eval b.memory).2) := by
    rw [hthread t ht, (hwithin t ht).advance_barrier]
  refine h _ (fun t ht => ?_) (fun t ht c hc => ?_) fun c hc => ?_
  · rw [hthreads t ((mem_order horder).2 ht), hadvance t ht]
  · rw [hwritten t ((mem_order horder).2 ht) c hc, hadvance t ht]
  · exact hrest c fun t ht => hc t ((mem_order horder).1 ht)

/-- The last phase. -/
theorem Leads.finish {f : ℕ → Footprint C} {part : ℕ → Thread C Val α}
    (hthread : ∀ t < width, b.thread t = part t)
    (hwithin : ∀ t < width, (part t).Within (f t)) (hseparate : Separate width f)
    (h : ∀ b' : Block C Val α, Finished width b' →
      (∀ t < width, ∀ c ∈ (f t).writes, b'.memory c = ((part t).eval b.memory).2 c) →
      (∀ c, (∀ t < width, c ∉ (f t).writes) → b'.memory c = b.memory c) → post b') :
    Leads width b post := by
  refine Leads.step fun order horder => Leads.now ?_
  obtain ⟨hthreads, hwritten, hrest⟩ := phase_spec (hseparate.ordered horder) (nodup_order horder) b
    fun t ht => by
      rw [hthread t ((mem_order horder).1 ht)]
      exact (hwithin t ((mem_order horder).1 ht)).begins
  have hadvance (t : ℕ) (ht : t < width) : (b.thread t).advance b.memory =
      (.pure ((part t).eval b.memory).1, ((part t).eval b.memory).2) := by
    rw [hthread t ht, (hwithin t ht).advance]
  refine h _ (fun t ht => ⟨((part t).eval b.memory).1, ?_⟩) (fun t ht c hc => ?_) fun c hc => ?_
  · rw [hthreads t ((mem_order horder).2 ht), hadvance t ht]
  · rw [hwritten t ((mem_order horder).2 ht) c hc, hadvance t ht]
  · exact hrest c fun t ht => hc t ((mem_order horder).1 ht)

/-- The effect of a block that leads to its end. -/
theorem BlockEffect.of_leads {shared operands writes : Set C} {thread : ℕ → Thread C Val α}
    {memory value : (c : C) → Val c} (hwrites : ∀ c ∈ writes, c ∉ shared)
    (h : ∀ start : (c : C) → Val c, (∀ c ∈ operands, start c = memory c) →
      Leads width ⟨thread, start⟩ fun b => Finished width b ∧
        (∀ c ∈ writes, b.memory c = value c) ∧ ∀ c ∉ shared, c ∉ writes → b.memory c = start c) :
    BlockEffect shared operands width thread writes memory value := by
  refine ⟨fun start hstart schedule hschedule => ?_,
    fun start hstart schedule hschedule m hends => ?_,
    fun start hstart schedule hschedule m hends => ?_, hwrites⟩
  all_goals obtain ⟨n, hfinished, hwritten, hkept⟩ := h start hstart schedule hschedule
  · exact ⟨_, n, hfinished, rfl⟩
  · rw [ends_iff hschedule hfinished] at hends
    rwa [← hends]
  · rw [ends_iff hschedule hfinished] at hends
    rwa [← hends]

end Block

end NNIS
