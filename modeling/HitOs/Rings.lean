import Mathlib.Data.List.Range
import Mathlib.Logic.Function.Basic

namespace HitOs

/-!
# Rings

A ring of `n` places is a function on indices of which only those below `n` are
used.  Places are numbered without end, number `i` being place `i % n`.  The window
from a number on is what a reader finds there; elements that are stored behind a
window extend it, and leave every other window alone.
-/

namespace Ring

variable {α : Type} {n : Nat} {page : Nat → α} {xs : List α}
variable {start length : Nat}

/-- The elements in successive places. -/
def window (n : Nat) (page : Nat → α) (start length : Nat) : List α :=
  (List.range length).map fun i => page ((start + i) % n)

/-- Store elements in successive places. -/
def store (n : Nat) : List α → Nat → (Nat → α) → Nat → α
  | [], _, page => page
  | x :: xs, start, page => store n xs (start + 1) (Function.update page (start % n) x)

@[simp] theorem length_window :
    (window n page start length).length = length := by
  simp [window]

@[simp] theorem window_zero : window n page start 0 = [] :=
  rfl

theorem window_congr
    {page' : Nat → α} {start' : Nat}
    (same :
      ∀ i, i < length → page' ((start' + i) % n) = page ((start + i) % n)) :
    window n page' start' length = window n page start length :=
  List.map_congr_left fun i member => same i (List.mem_range.mp member)

/-- Only the place where a window starts matters. -/
@[simp] theorem window_mod :
    window n page (start % n) length = window n page start length :=
  window_congr fun i _ => by rw [Nat.mod_add_mod]

/-- A window is two windows, one after the other. -/
theorem window_add (first second : Nat) :
    window n page start (first + second) =
      window n page start first ++ window n page (start + first) second := by
  unfold window
  rw [List.range_add, List.map_append, List.map_map]
  refine congrArg _ (List.map_congr_left fun i _ => ?_)
  rw [Function.comp_apply, Nat.add_assoc]

theorem window_one :
    window n page start 1 = [page (start % n)] :=
  rfl

/-! ## Storing -/

/-- A place where nothing is stored keeps its element. -/
theorem store_of_ne
    {place : Nat}
    (elsewhere : ∀ i, i < xs.length → (start + i) % n ≠ place) :
    store n xs start page place = page place := by
  induction xs generalizing start page with
  | nil =>
    rfl
  | cons x xs inductionHypothesis =>
    unfold store
    rw [inductionHypothesis]
    · exact Function.update_of_ne
        (elsewhere 0 (Nat.zero_lt_succ _)).symm _ _
    · intro i below
      rw [Nat.add_assoc, Nat.add_comm 1 i]
      exact elsewhere (i + 1) (Nat.succ_lt_succ below)

/-- What is stored does not touch a window beside it. -/
theorem window_store_of_disjoint
    {origin : Nat}
    (below : origin + length ≤ start)
    (around : start + xs.length ≤ origin + n) :
    window n (store n xs start page) origin length =
      window n page origin length := by
  refine window_congr fun i inside => ?_
  refine store_of_ne fun j inXs same => ?_
  have distance : start + j - (origin + i) < n := by
    omega
  have zero : (start + j - (origin + i)) % n = 0 :=
    Nat.sub_mod_eq_zero_of_mod_eq same
  rw [Nat.mod_eq_of_lt distance] at zero
  omega

/-- What is stored is found. -/
theorem window_store_self
    (fits : xs.length ≤ n) :
    window n (store n xs start page) start xs.length = xs := by
  induction xs generalizing start page with
  | nil =>
    rfl
  | cons x xs inductionHypothesis =>
    have shorter : xs.length ≤ n := by
      rw [List.length_cons] at fits
      omega
    rw [List.length_cons, Nat.add_comm, window_add]
    unfold store
    rw [inductionHypothesis shorter, window_store_of_disjoint, window_one,
      Function.update_self]
    · rfl
    · exact Nat.le_refl _
    · rw [List.length_cons] at fits
      omega

/-- The queue law: storing behind a window appends to it. -/
theorem window_store
    (fits : length + xs.length ≤ n) :
    window n (store n xs (start + length) page) start
        (length + xs.length) =
      window n page start length ++ xs := by
  rw [window_add, window_store_self (by omega),
    window_store_of_disjoint (Nat.le_refl _) (by omega)]

theorem store_append
    {ys : List α} :
    store n (xs ++ ys) start page =
      store n ys (start + xs.length) (store n xs start page) := by
  induction xs generalizing start page with
  | nil =>
    rfl
  | cons x xs inductionHypothesis =>
    rw [List.cons_append, store, inductionHypothesis, List.length_cons,
      Nat.add_assoc, Nat.add_comm 1]
    rfl

/-- Only the place where the first element goes matters. -/
@[simp] theorem store_mod :
    store n xs (start % n) page = store n xs start page := by
  induction xs generalizing start page with
  | nil =>
    rfl
  | cons x xs inductionHypothesis =>
    unfold store
    rw [Nat.mod_mod, ← inductionHypothesis, Nat.mod_add_mod, inductionHypothesis]

/-! ## Without going around -/

/-- Load successive elements of a page. -/
def load (page : Nat → α) (start length : Nat) : List α :=
  (List.range length).map fun i => page (start + i)

/-- Store successive elements in a page. -/
def fill : List α → Nat → (Nat → α) → Nat → α
  | [], _, page => page
  | x :: xs, start, page => fill xs (start + 1) (Function.update page start x)

@[simp] theorem length_load :
    (load page start length).length = length := by
  simp [load]

@[simp] theorem load_zero : load page start 0 = [] :=
  rfl

theorem load_add (first second : Nat) :
    load page start (first + second) =
      load page start first ++ load page (start + first) second := by
  unfold load
  rw [List.range_add, List.map_append, List.map_map]
  refine congrArg _ (List.map_congr_left fun i _ => ?_)
  rw [Function.comp_apply, Nat.add_assoc]

theorem load_eq_window
    (fits : start + length ≤ n) :
    load page start length = window n page start length :=
  List.map_congr_left fun i member => by
    rw [List.mem_range] at member
    rw [Nat.mod_eq_of_lt (by omega)]

theorem fill_eq_store
    (fits : start + xs.length ≤ n) :
    fill xs start page = store n xs start page := by
  induction xs generalizing start page with
  | nil =>
    rfl
  | cons x xs inductionHypothesis =>
    rw [List.length_cons] at fits
    unfold fill store
    rw [Nat.mod_eq_of_lt (by omega), inductionHypothesis (by omega)]

end Ring

end HitOs
