import Mathlib.Data.List.Induction
import NNIS.Model.GenerationSpec
import NNIS.Model.SessionCompaction

/-!
# Decoding after a compaction

After a compaction a session holds fewer rows than positions. A token still fits whenever there is a
free position, so the triples of `GenerationSpec` hold for such sessions too.

## Main definitions

* `Decoder.State.select` — a state with selected rows.
* `Decoder.State.Fits` — no layer holds more rows than there are positions.

## Main results

* `Session.decodeOne_holds_of_fits`, `Session.compactKvCacheRows_holds`.
-/

set_option autoImplicit false

namespace NNIS

namespace Decoder.State

variable {V O : Type}

/-- The state with the selected rows of every layer. -/
def select (retained : List ℕ) (c : State (KvRow V) O) : State (KvRow V) O :=
  { c with rows := fun l => KvCache.selectRows retained (c.rows l) }

/-- Each of the first layers holds at most one row per position. -/
def Fits {R : Type} (layers : ℕ) (c : State R O) : Prop :=
  ∀ l < layers, (c.rows l).length ≤ c.position

end Decoder.State

namespace KvCache

variable {V : Type}

theorem length_selectRows {retained : List ℕ} {rows : List (KvRow V)}
    (h : ∀ p ∈ retained, p < rows.length) :
    (selectRows retained rows).length = retained.length := by
  unfold selectRows
  induction retained with
  | nil => rfl
  | cons p retained ih =>
    rw [List.filterMap_cons, List.getElem?_eq_getElem (h p List.mem_cons_self), List.length_cons,
      List.length_cons, ih fun q hq => h q (List.mem_cons_of_mem p hq)]

@[simp] theorem selectRows_nil (retained : List ℕ) :
    selectRows retained ([] : List (KvRow V)) = [] := by
  unfold selectRows
  exact List.filterMap_eq_nil_iff.2 fun _ _ => List.getElem?_nil

/-- Selecting all rows in order changes nothing. -/
theorem selectRows_range (rows : List (KvRow V)) :
    selectRows (List.range rows.length) rows = rows := by
  unfold selectRows
  induction rows using List.reverseRecOn with
  | nil => rfl
  | append_singleton rows row ih =>
    rw [List.length_append, List.length_singleton, List.range_succ, List.filterMap_append]
    congr 1
    · refine Eq.trans (List.filterMap_congr fun p hp => ?_) ih
      rw [List.getElem?_append_left (List.mem_range.1 hp)]
    · rw [List.filterMap_cons, List.getElem?_append_right le_rfl, Nat.sub_self]
      rfl

end KvCache

namespace Session

variable {V : Type} {rt : Pipeline V} {driver : Driver} {c : Decoder.State (KvRow V) (List F32)}
  {token : UInt32}

/-! ### States that fit -/

theorem fits_step (h : c.Fits rt.config.numHiddenLayers) (token : UInt32) :
    (rt.decoder.step token c).Fits rt.config.numHiddenLayers := by
  intro l hl
  have hrows := rt.decoder.length_rows_step token c hl
  have hc := h l hl
  rw [hrows, rt.decoder.position_step token c]
  omega

/-- A selection of the rows of an aligned state. -/
theorem fits_select (h : c.Aligned rt.config.numHiddenLayers) {retained : List ℕ}
    (hvalid : KvCache.validateRetainedPositions c.position retained = .ok ⟨⟩) :
    (c.select retained).Fits rt.config.numHiddenLayers := by
  intro l hl
  have hlength : (c.rows l).length = c.position := h l hl
  have hbound := (KvCache.validateRetainedPositions_ok hvalid).1
  show (KvCache.selectRows retained (c.rows l)).length ≤ c.position
  rw [KvCache.length_selectRows (by rwa [hlength])]
  exact KvCache.length_le_of_selected hvalid

/-- Layers that the model does not have hold no rows. -/
theorem rows_advance_of_le {l : ℕ} (hl : rt.config.numHiddenLayers ≤ l) (tokens : List UInt32)
    (c : Decoder.State (KvRow V) (List F32)) :
    ((deviceTarget rt).advance tokens c).rows l = c.rows l := by
  induction tokens generalizing c with
  | nil => rfl
  | cons token tokens ih => exact (ih _).trans (rt.decoder.rows_step_of_le token c hl)

/-- Selecting all rows after a prompt changes nothing. -/
theorem select_range_prompted (inputIds : List UInt32) :
    (prompted rt inputIds).select (List.range inputIds.length) = prompted rt inputIds := by
  refine Decoder.State.ext rfl (funext fun l => ?_) rfl
  show KvCache.selectRows (List.range inputIds.length) ((prompted rt inputIds).rows l) = _
  rcases Nat.lt_or_ge l rt.config.numHiddenLayers with hl | hl
  · have hlength : ((prompted rt inputIds).rows l).length = (prompted rt inputIds).position :=
      aligned_prompted inputIds l hl
    rw [position_prompted] at hlength
    rw [← hlength]
    exact KvCache.selectRows_range _
  · have hrows : (prompted rt inputIds).rows l = [] := rows_advance_of_le hl inputIds _
    rw [hrows, KvCache.selectRows_nil]

theorem Holds.room {s : Session rt} (h : Holds driver c s)
    (hc : c.Fits rt.config.numHiddenLayers)
    (hposition : c.position < rt.config.maxPositionEmbeddings) : s.Room := by
  refine ⟨h.position_eq ▸ hposition, fun l hl => ?_⟩
  have hrows : s.cache.rows l = c.rows l := congrFun (congrArg Decoder.State.rows h.core_eq) l
  rw [← KvCache.length_rows, hrows]
  exact (hc l hl).trans_lt hposition

/-- Decoding a token of the vocabulary that fits returns the logits after it. -/
theorem decodeOne_holds_of_fits (hc : c.Fits rt.config.numHiddenLayers)
    (htoken : token.toNat < rt.config.vocabSize)
    (hposition : c.position < rt.config.maxPositionEmbeddings) :
    Fallible.Spec (Holds driver c) (decodeOne token : Fallible (Session rt) NnisError (List F32))
      (fun logits s => Holds driver (rt.decoder.step token c) s ∧
        logits = (rt.decoder.step token c).output) fun _ _ => ¬ driver.Accepts := by
  refine Fallible.Spec.of_forall fun s₁ hs₁ => (s₁.decodeOne_spec token).conseq
    (fun _ hs => hs) ?_ fun _ s hs => ?_
  · rintro logits s ⟨hs, rfl⟩
    have hcore : s.core = rt.decoder.step token c := hs.core_eq.trans (congrArg _ hs₁.core_eq)
    exact ⟨⟨hs.since.driver_eq.trans hs₁.driver_eq, hcore⟩, congrArg Decoder.State.output hcore⟩
  · refine not_accepts (hs.since.driver_eq.trans hs₁.driver_eq) ?_
    cases hs with
    | rejected session token_ge =>
      have hfull : s₁.position < rt.config.maxPositionEmbeddings := hs₁.position_eq ▸ hposition
      omega
    | interrupted h _ =>
      exact h.not_accepting.resolve_right (not_not.2 (hs₁.room hc hposition))
    | unreported _ refused => exact refused

/-! ### Compaction -/

/-- An accepted compaction of an aligned session leaves the selected rows. -/
theorem compactKvCacheRows_holds (contents : ℕ → ℕ → V) {retained : List ℕ}
    (hc : c.Aligned rt.config.numHiddenLayers)
    (hvalid : KvCache.validateRetainedPositions c.position retained = .ok ⟨⟩) :
    Fallible.Spec (Holds driver c)
      (compactKvCacheRows contents retained : Fallible (Session rt) NnisError PUnit)
      (fun _ => Holds driver (c.select retained)) fun _ _ => ¬ driver.Accepts := by
  refine Fallible.Spec.bind (call_holds _) fun _ => Fallible.Spec.of_forall fun s₁ hs₁ => ?_
  have hlayers := rt.config.numHiddenLayers_pos
  have hrow : ∀ l < rt.config.numHiddenLayers, s₁.cache.rowCount l = c.position := fun l hl =>
    ((hs₁.aligned hc).rowCount_eq hl).trans hs₁.position_eq
  have huniform : s₁.cache.Uniform retained :=
    ⟨fun l hl => (hrow l hl).trans (hrow 0 hlayers).symm, by rwa [hrow 0 hlayers]⟩
  refine ((s₁.cache.compactKvCache_spec contents retained).zoom s₁).conseq
    (fun s hs => ⟨hs, hs ▸ rfl⟩) ?_ ?_
  · rintro - s ⟨cache, ⟨hsince, -, hrows⟩, rfl⟩
    refine ⟨hsince.driver_eq.trans hs₁.driver_eq, Decoder.State.ext hs₁.position_eq
      (funext fun l => ?_) hs₁.logits_eq⟩
    have hrow : s₁.cache.rows l = c.rows l := congrFun (congrArg Decoder.State.rows hs₁.core_eq) l
    show cache.rows l = KvCache.selectRows retained (c.rows l)
    rw [← hrow]
    rcases Nat.lt_or_ge l rt.config.numHiddenLayers with hl | hl
    · exact (hrows l hl).2
    · rw [cache.rows_of_le hl, s₁.cache.rows_of_le hl, KvCache.selectRows_nil]
  · rintro - s ⟨cache, hcache, rfl⟩
    exact not_accepts hs₁.driver_eq (hcache.2 huniform)

end Session

end NNIS
