import Mathlib.Logic.Function.Basic

namespace HitOs

/-!
# String moves

A memory of words, each at the byte address where it starts, and the string
instructions on it: `rep stosw` and `rep movsl` in both directions.  Addresses that are
used together lie an even number of bytes apart, so that the words of a stretch are
those at `base + 2 * i`.  A memory keeps the addresses of all words stored.
-/

/-- `stores` are the addresses of the words stored, the last one first. -/
structure Words (α : Type) where
  word : Nat → α
  stores : List Nat

namespace Words

variable {α : Type}

def store (address : Nat) (word : α) (words : Words α) : Words α :=
  { word := Function.update words.word address word
    stores := address :: words.stores }

/-- `rep stosw` -/
def fill (word : α) : Nat → Nat → Words α → Words α
  | 0, _, words => words
  | count + 1, di, words => fill word count (di + 2) (words.store di word)

/-- `rep stosw` with the direction flag set. -/
def fillDown (word : α) : Nat → Nat → Words α → Words α
  | 0, _, words => words
  | count + 1, di, words => fillDown word count (di - 2) (words.store di word)

/-- `movsl`, a move of two words. -/
def moveLong (si di : Nat) (words : Words α) : Words α :=
  (words.store di (words.word si)).store (di + 2) (words.word (si + 2))

/-- `rep movsl` -/
def move : Nat → Nat → Nat → Words α → Words α
  | 0, _, _, words => words
  | count + 1, si, di, words => move count (si + 4) (di + 4) (words.moveLong si di)

/-- `rep movsl` with the direction flag set. -/
def moveDown : Nat → Nat → Nat → Words α → Words α
  | 0, _, _, words => words
  | count + 1, si, di, words => moveDown count (si - 4) (di - 4) (words.moveLong si di)

@[simp] theorem store_word_same
    (address : Nat) (word : α) (words : Words α) :
    (words.store address word).word address = word := by
  unfold store
  exact Function.update_self _ _ _

theorem store_word_of_ne
    {address other : Nat}
    (different : other ≠ address)
    (word : α)
    (words : Words α) :
    (words.store address word).word other = words.word other := by
  unfold store
  exact Function.update_of_ne different _ _

/-! ## Where words are stored -/

/-- Nothing has been stored outside a part of the memory. -/
def Confined (low high : Nat) (words : Words α) : Prop :=
  ∀ address ∈ words.stores, low ≤ address ∧ address + 2 ≤ high

section Confined

variable {low high : Nat} {words : Words α}

theorem Confined.store
    {address : Nat}
    (confined : words.Confined low high)
    (above : low ≤ address)
    (below : address + 2 ≤ high)
    (word : α) :
    (words.store address word).Confined low high := by
  intro other member
  rcases List.mem_cons.mp member with rfl | earlier
  · exact ⟨above, below⟩
  · exact confined other earlier

theorem Confined.fill
    {count di : Nat}
    (confined : words.Confined low high)
    (above : low ≤ di)
    (below : di + 2 * count ≤ high)
    (word : α) :
    (words.fill word count di).Confined low high := by
  induction count generalizing di words with
  | zero =>
    exact confined
  | succ count inductionHypothesis =>
    exact inductionHypothesis
      (confined.store above (by omega) word) (by omega) (by omega)

theorem Confined.fillDown
    {count di : Nat}
    (confined : words.Confined low high)
    (above : low + 2 * count ≤ di + 2)
    (below : di + 2 ≤ high)
    (word : α) :
    (words.fillDown word count di).Confined low high := by
  induction count generalizing di words with
  | zero =>
    exact confined
  | succ count inductionHypothesis =>
    have stored := confined.store (by omega) below word
    cases count with
    | zero =>
      exact stored
    | succ count =>
      exact inductionHypothesis stored (by omega) (by omega)

theorem Confined.moveLong
    {si di : Nat}
    (confined : words.Confined low high)
    (above : low ≤ di)
    (below : di + 4 ≤ high) :
    (words.moveLong si di).Confined low high :=
  (confined.store above (by omega) _).store (by omega) (by omega) _

theorem Confined.move
    {count si di : Nat}
    (confined : words.Confined low high)
    (above : low ≤ di)
    (below : di + 4 * count ≤ high) :
    (words.move count si di).Confined low high := by
  induction count generalizing si di words with
  | zero =>
    exact confined
  | succ count inductionHypothesis =>
    exact inductionHypothesis
      (confined.moveLong above (by omega)) (by omega) (by omega)

theorem Confined.moveDown
    {count si di : Nat}
    (confined : words.Confined low high)
    (above : low + 4 * count ≤ di + 4)
    (below : di + 4 ≤ high) :
    (words.moveDown count si di).Confined low high := by
  induction count generalizing si di words with
  | zero =>
    exact confined
  | succ count inductionHypothesis =>
    have stored : (words.moveLong si di).Confined low high :=
      confined.moveLong (by omega) below
    cases count with
    | zero =>
      exact stored
    | succ count =>
      exact inductionHypothesis stored (by omega) (by omega)

end Confined

/-! ## What a stretch holds -/

section Contents

theorem fill_word
    (base start count : Nat)
    (word : α)
    (words : Words α)
    (i : Nat) :
    (words.fill word count (base + 2 * start)).word (base + 2 * i) =
      if start ≤ i ∧ i < start + count then word
      else words.word (base + 2 * i) := by
  induction count generalizing start words with
  | zero =>
    rw [if_neg (by omega)]
    rfl
  | succ count inductionHypothesis =>
    have next := inductionHypothesis
      (start + 1) (words.store (base + 2 * start) word)
    rw [show base + 2 * (start + 1) = base + 2 * start + 2 by omega] at next
    rw [fill, next]
    by_cases first : i = start
    · subst first
      rw [if_neg (by omega), if_pos (by omega), store_word_same]
    · rw [store_word_of_ne (by omega)]
      by_cases inside : start + 1 ≤ i ∧ i < start + 1 + count
      · rw [if_pos inside, if_pos (by omega)]
      · rw [if_neg inside, if_neg (by omega)]

theorem moveLong_word
    (base start distance : Nat)
    (words : Words α)
    (i : Nat) :
    (words.moveLong (base + 2 * (start + distance)) (base + 2 * start)).word
        (base + 2 * i) =
      if start ≤ i ∧ i < start + 2 then words.word (base + 2 * (i + distance))
      else words.word (base + 2 * i) := by
  unfold moveLong
  by_cases second : i = start + 1
  · subst second
    rw [if_pos (by omega),
      show base + 2 * (start + 1) = base + 2 * start + 2 by omega,
      store_word_same]
    exact congrArg words.word (by omega)
  · rw [store_word_of_ne (by omega)]
    by_cases first : i = start
    · subst first
      rw [if_pos (by omega), store_word_same]
    · rw [store_word_of_ne (by omega), if_neg (by omega)]

/-- A move downwards in memory copies a stretch, also onto an overlapping one. -/
theorem move_word
    (base start distance count : Nat)
    (words : Words α)
    (i : Nat) :
    (words.move count (base + 2 * (start + distance)) (base + 2 * start)).word
        (base + 2 * i) =
      if start ≤ i ∧ i < start + 2 * count then
        words.word (base + 2 * (i + distance))
      else words.word (base + 2 * i) := by
  induction count generalizing start words with
  | zero =>
    rw [if_neg (by omega)]
    rfl
  | succ count inductionHypothesis =>
    have next := inductionHypothesis (start + 2)
      (words.moveLong (base + 2 * (start + distance)) (base + 2 * start))
    rw [show base + 2 * (start + 2) = base + 2 * start + 4 by omega,
      show base + 2 * (start + 2 + distance) =
        base + 2 * (start + distance) + 4 by omega] at next
    rw [move, next, moveLong_word, moveLong_word]
    by_cases later : start + 2 ≤ i ∧ i < start + 2 + 2 * count
    · rw [if_pos later, if_neg (by omega), if_pos (by omega)]
    · rw [if_neg later]
      by_cases early : start ≤ i ∧ i < start + 2
      · rw [if_pos early, if_pos (by omega)]
      · rw [if_neg early, if_neg (by omega)]

end Contents

/-! ## The same words elsewhere -/

/-- Two memories have the same words in a stretch that starts at a base of its own. -/
def Same (length base base' : Nat) (words words' : Words α) : Prop :=
  ∀ i, i < length → words.word (base + 2 * i) = words'.word (base' + 2 * i)

section Same

variable {length base base' : Nat} {words words' : Words α}

theorem Same.symm
    (same : Same length base base' words words') :
    Same length base' base words' words :=
  fun i below => (same i below).symm

theorem Same.trans
    {base'' : Nat}
    {words'' : Words α}
    (same : Same length base base' words words')
    (same' : Same length base' base'' words' words'') :
    Same length base base'' words words'' :=
  fun i below => (same i below).trans (same' i below)

theorem Same.store
    (same : Same length base base' words words')
    (start : Nat)
    (word : α) :
    Same length base base'
      (words.store (base + 2 * start) word)
      (words'.store (base' + 2 * start) word) := by
  intro i below
  by_cases here : i = start
  · subst here
    rw [store_word_same, store_word_same]
  · rw [store_word_of_ne (by omega), store_word_of_ne (by omega)]
    exact same i below

theorem Same.fill
    (same : Same length base base' words words')
    (start count : Nat)
    (word : α) :
    Same length base base'
      (words.fill word count (base + 2 * start))
      (words'.fill word count (base' + 2 * start)) := by
  intro i below
  rw [fill_word, fill_word, same i below]

theorem Same.moveLong
    (same : Same length base base' words words')
    (start dest : Nat)
    (inside : start + 2 ≤ length) :
    Same length base base'
      (words.moveLong (base + 2 * start) (base + 2 * dest))
      (words'.moveLong (base' + 2 * start) (base' + 2 * dest)) := by
  have second : words.word (base + 2 * start + 2) =
      words'.word (base' + 2 * start + 2) :=
    same (start + 1) (by omega)
  unfold Words.moveLong
  rw [same start (by omega), second]
  exact (same.store dest _).store (dest + 1) _

theorem Same.move
    (same : Same length base base' words words')
    (start dest count : Nat)
    (inside : start + 2 * count ≤ length) :
    Same length base base'
      (words.move count (base + 2 * start) (base + 2 * dest))
      (words'.move count (base' + 2 * start) (base' + 2 * dest)) := by
  induction count generalizing start dest words words' with
  | zero =>
    exact same
  | succ count inductionHypothesis =>
    exact inductionHypothesis
      (same.moveLong start dest (by omega)) (start + 2) (dest + 2)
      (by omega)

theorem Same.fillDown
    (same : Same length base base' words words')
    (stop count : Nat)
    (room : count ≤ stop)
    (word : α) :
    Same length base base'
      (words.fillDown word count (base + 2 * stop - 2))
      (words'.fillDown word count (base' + 2 * stop - 2)) := by
  induction count generalizing stop words words' with
  | zero =>
    exact same
  | succ count inductionHypothesis =>
    have next := inductionHypothesis
      (same.store (stop - 1) word) (stop - 1) (by omega)
    unfold Words.fillDown
    rw [show base + 2 * stop - 2 = base + 2 * (stop - 1) by omega,
      show base' + 2 * stop - 2 = base' + 2 * (stop - 1) by omega]
    exact next

theorem Same.moveDown
    (same : Same length base base' words words')
    (stop dest count : Nat)
    (room : 2 * count ≤ stop)
    (down : stop ≤ dest)
    (inside : stop ≤ length) :
    Same length base base'
      (words.moveDown count (base + 2 * stop - 4) (base + 2 * dest - 4))
      (words'.moveDown count
        (base' + 2 * stop - 4) (base' + 2 * dest - 4)) := by
  induction count generalizing stop dest words words' with
  | zero =>
    exact same
  | succ count inductionHypothesis =>
    have next := inductionHypothesis
      (same.moveLong (stop - 2) (dest - 2) (by omega)) (stop - 2) (dest - 2)
      (by omega) (by omega) (by omega)
    unfold Words.moveDown
    rw [show base + 2 * stop - 4 = base + 2 * (stop - 2) by omega,
      show base' + 2 * stop - 4 = base' + 2 * (stop - 2) by omega,
      show base + 2 * dest - 4 = base + 2 * (dest - 2) by omega,
      show base' + 2 * dest - 4 = base' + 2 * (dest - 2) by omega]
    exact next

end Same

end Words

end HitOs
