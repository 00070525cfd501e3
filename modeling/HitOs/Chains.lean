import Mathlib.Data.List.Nodup
import Mathlib.Logic.Function.Basic

namespace HitOs

/-!
# Chains of nodes

A list that lives in memory is a start and a `next` field in every node.
`Linked` says which nodes it has, in order.  Storing into fields of nodes that
are not on the chain leaves it alone, and a chain has one list of nodes.
-/

variable {ι : Type} {next next' : ι → Option ι}

/-- The nodes that following `next` from a start leads through. -/
def Linked (next : ι → Option ι) : Option ι → List ι → Prop
  | start, [] => start = none
  | start, node :: rest => start = some node ∧ Linked next (next node) rest

namespace Linked

@[simp] theorem nil_iff
    {start : Option ι} :
    Linked next start [] ↔ start = none :=
  Iff.rfl

/-- The chain depends only on the fields of its own nodes. -/
theorem congr
    {nodes : List ι} {start : Option ι}
    (linked : Linked next start nodes)
    (same : ∀ node ∈ nodes, next' node = next node) :
    Linked next' start nodes := by
  induction nodes generalizing start with
  | nil =>
    exact linked
  | cons node rest inductionHypothesis =>
    obtain ⟨first, tail⟩ := linked
    refine ⟨first, ?_⟩
    rw [same node List.mem_cons_self]
    exact inductionHypothesis tail
      fun other member => same other (List.mem_cons_of_mem _ member)

/-- A chain that starts nowhere has no node. -/
theorem eq_nil
    {nodes : List ι}
    (linked : Linked next none nodes) :
    nodes = [] := by
  cases nodes with
  | nil =>
    rfl
  | cons node rest =>
    cases linked.1

/-- A new node is put behind a node of the chain. -/
theorem insert
    [DecidableEq ι]
    {earlier later : List ι} {start : Option ι} {node new : ι}
    (linked : Linked next start (earlier ++ node :: later))
    (nodup : (earlier ++ node :: later).Nodup)
    (fresh : new ∉ earlier ++ node :: later) :
    Linked
      (Function.update (Function.update next new (next node)) node (some new))
      start (earlier ++ node :: new :: later) := by
  induction earlier generalizing start with
  | nil =>
    obtain ⟨first, tail⟩ := linked
    obtain ⟨notAgain, _⟩ := List.nodup_cons.mp nodup
    have different : new ≠ node :=
      fun same => fresh (same ▸ List.mem_cons_self)
    refine ⟨first, ?_, ?_⟩
    · rw [Function.update_self]
    · rw [Function.update_of_ne different, Function.update_self]
      refine tail.congr fun other member => ?_
      have notNode : other ≠ node := fun same => notAgain (same ▸ member)
      have notNew : other ≠ new :=
        fun same => fresh (List.mem_cons_of_mem _ (same ▸ member))
      rw [Function.update_of_ne notNode, Function.update_of_ne notNew]
  | cons other earlier inductionHypothesis =>
    obtain ⟨first, tail⟩ := linked
    obtain ⟨notAgain, nodup⟩ := List.nodup_cons.mp nodup
    have notNode : other ≠ node := by
      rintro rfl
      exact notAgain (List.mem_append_right _ List.mem_cons_self)
    have notNew : other ≠ new := by
      rintro rfl
      exact fresh List.mem_cons_self
    refine ⟨first, ?_⟩
    rw [Function.update_of_ne notNode, Function.update_of_ne notNew]
    exact inductionHypothesis tail nodup
      fun member => fresh (List.mem_cons_of_mem _ member)

/-- Nodes each of which points to the one with the next number. -/
theorem steps
    {count : Nat} {node : Nat → ι} {nodes : List ι}
    (step : ∀ i, i < count → next (node i) = some (node (i + 1)))
    (rest : Linked next (some (node count)) nodes) :
    Linked next (some (node 0)) ((List.range count).map node ++ nodes) := by
  induction count generalizing node with
  | zero =>
    exact rest
  | succ count inductionHypothesis =>
    rw [List.range_succ_eq_map, List.map_cons, List.map_map, List.cons_append]
    refine ⟨rfl, ?_⟩
    rw [step 0 (Nat.succ_pos count)]
    have behind (i : Nat) (below : i < count) :
        next (node (i + 1)) = some (node (i + 1 + 1)) :=
      step (i + 1) (Nat.succ_lt_succ below)
    exact inductionHypothesis behind rest

/-- A node behind another one is taken out. -/
theorem remove
    [DecidableEq ι]
    {earlier later : List ι} {start : Option ι} {prev node : ι}
    (linked : Linked next start (earlier ++ prev :: node :: later))
    (nodup : (earlier ++ prev :: node :: later).Nodup) :
    Linked (Function.update next prev (next node)) start
      (earlier ++ prev :: later) := by
  induction earlier generalizing start with
  | nil =>
    obtain ⟨first, _, tail⟩ := linked
    obtain ⟨notAgain, _⟩ := List.nodup_cons.mp nodup
    refine ⟨first, ?_⟩
    rw [Function.update_self]
    refine tail.congr fun other member => Function.update_of_ne ?_ _ _
    rintro rfl
    exact notAgain (List.mem_cons_of_mem _ member)
  | cons other earlier inductionHypothesis =>
    obtain ⟨first, tail⟩ := linked
    obtain ⟨notAgain, nodup⟩ := List.nodup_cons.mp nodup
    have different : other ≠ prev := by
      rintro rfl
      exact notAgain (List.mem_append_right _ List.mem_cons_self)
    refine ⟨first, ?_⟩
    rw [Function.update_of_ne different]
    exact inductionHypothesis tail nodup

end Linked

end HitOs
