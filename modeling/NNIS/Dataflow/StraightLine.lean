import Mathlib.Data.List.Forall2
import Mathlib.Data.Nat.Notation

/-!
# Straight-line programs

A straight-line program is a list of nodes over some inputs. The values are numbered in the order
in which they appear, the inputs first and then the result of each node, so a node can refer to
the inputs and to the results of the nodes before it. A typing rule relates the types of the
values before a node to the node's operation and its declared type; a meaning sends the values
before a node to the node's result.

## Main definitions

* `StraightLine.Node`, `StraightLine.context`.
* `StraightLine.WellTyped` — every node obeys the typing rule over the values before it.
* `StraightLine.cost` — a cost of nodes, summed over a program.
* `StraightLine.denote` — the results of the nodes.

## Main results

* `StraightLine.wellTyped_append` — a program and its continuation.
* `StraightLine.wellTyped_concat`, `StraightLine.cost_concat`, `StraightLine.denote_concat` — the
  last node of a program.
-/

set_option autoImplicit false

namespace NNIS

universe u v w

namespace StraightLine

variable {Op : Type u} {Ty : Type v} {Val : Type w}

/-- An operation and the type that its result is declared to have. -/
structure Node (Op : Type u) (Ty : Type v) where
  operation : Op
  output : Ty
  deriving DecidableEq

/-- The types of the values before the end of a list of nodes. -/
def context (Γ : List Ty) (nodes : List (Node Op Ty)) : List Ty := Γ ++ nodes.map Node.output

@[simp] theorem context_nil (Γ : List Ty) : context Γ ([] : List (Node Op Ty)) = Γ :=
  List.append_nil Γ

theorem context_cons (Γ : List Ty) (node : Node Op Ty) (nodes : List (Node Op Ty)) :
    context Γ (node :: nodes) = context (Γ ++ [node.output]) nodes := by
  rw [context, context, List.map_cons, List.append_assoc, List.singleton_append]

/-- Every node obeys the typing rule over the values before it. -/
def WellTyped (rule : List Ty → Op → Ty → Prop) : List Ty → List (Node Op Ty) → Prop
  | _, [] => True
  | Γ, node :: nodes => rule Γ node.operation node.output ∧
      WellTyped rule (Γ ++ [node.output]) nodes

/-- The cost of a program: the sum of the costs of its nodes over the values before them. -/
def cost (price : List Ty → Node Op Ty → ℕ) : List Ty → List (Node Op Ty) → ℕ
  | _, [] => 0
  | Γ, node :: nodes => price Γ node + cost price (Γ ++ [node.output]) nodes

/-- The results of the nodes, in order. -/
def denote (meaning : List Val → Op → Val) : List Val → List (Node Op Ty) → List Val
  | _, [] => []
  | env, node :: nodes =>
    meaning env node.operation :: denote meaning (env ++ [meaning env node.operation]) nodes

variable {rule : List Ty → Op → Ty → Prop} {price : List Ty → Node Op Ty → ℕ}
  {meaning : List Val → Op → Val}

theorem wellTyped_append (Γ : List Ty) (nodes rest : List (Node Op Ty)) :
    WellTyped rule Γ (nodes ++ rest) ↔
      WellTyped rule Γ nodes ∧ WellTyped rule (context Γ nodes) rest := by
  induction nodes generalizing Γ with
  | nil =>
    rw [List.nil_append, context_nil]
    exact ⟨fun h => ⟨trivial, h⟩, And.right⟩
  | cons first nodes ih =>
    rw [List.cons_append, WellTyped, WellTyped, ih, context_cons, and_assoc]

theorem wellTyped_concat (Γ : List Ty) (nodes : List (Node Op Ty)) (node : Node Op Ty) :
    WellTyped rule Γ (nodes ++ [node]) ↔
      WellTyped rule Γ nodes ∧ rule (context Γ nodes) node.operation node.output := by
  rw [wellTyped_append]
  exact and_congr_right fun _ => ⟨And.left, fun h => ⟨h, trivial⟩⟩

theorem cost_concat (Γ : List Ty) (nodes : List (Node Op Ty)) (node : Node Op Ty) :
    cost price Γ (nodes ++ [node]) = cost price Γ nodes + price (context Γ nodes) node := by
  induction nodes generalizing Γ with
  | nil => simp only [List.nil_append, cost, context_nil, Nat.add_comm]
  | cons first nodes ih => rw [List.cons_append, cost, cost, ih, context_cons, Nat.add_assoc]

@[simp] theorem length_denote (env : List Val) (nodes : List (Node Op Ty)) :
    (denote meaning env nodes).length = nodes.length := by
  induction nodes generalizing env with
  | nil => rfl
  | cons node nodes ih => rw [denote, List.length_cons, ih, List.length_cons]

theorem denote_concat (env : List Val) (nodes : List (Node Op Ty)) (node : Node Op Ty) :
    denote meaning env (nodes ++ [node]) =
      denote meaning env nodes ++
        [meaning (env ++ denote meaning env nodes) node.operation] := by
  induction nodes generalizing env with
  | nil => simp only [List.nil_append, denote, List.append_nil]
  | cons first nodes ih =>
    rw [List.cons_append, denote, denote, ih, List.cons_append, List.append_assoc,
      List.singleton_append]

end StraightLine

end NNIS
