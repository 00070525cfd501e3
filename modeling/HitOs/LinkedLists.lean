import Mathlib.Data.List.Chain
import Mathlib.Logic.Function.Basic

namespace HitOs

/-!
# Doubly linked lists

Nodes with a pointer to the next and to the previous node, where none is the null
pointer.  A segment says what the pointers of a list of nodes are, given what comes
before and after it; a ring is a segment that comes before and after itself.  The
rules say what a store into one end of a segment does to it.
-/

/-- The pointers of the nodes. -/
structure Links (α : Type) where
  next : α → Option α
  prev : α → Option α

namespace Links

variable {α : Type}

section Stores

variable [DecidableEq α]

/-- `node->next = value`; a store through a null pointer touches no node. -/
def setNext (node value : Option α) (links : Links α) : Links α :=
  match node with
  | none => links
  | some node => { links with next := Function.update links.next node value }

/-- `node->prev = value` -/
def setPrev (node value : Option α) (links : Links α) : Links α :=
  match node with
  | none => links
  | some node => { links with prev := Function.update links.prev node value }

variable {links : Links α} {node value : Option α} {place : α}

@[simp] theorem setPrev_none : links.setPrev none value = links := rfl

@[simp] theorem setNext_prev : (links.setNext node value).prev = links.prev := by
  cases node <;> rfl

@[simp] theorem setPrev_next : (links.setPrev node value).next = links.next := by
  cases node <;> rfl

@[simp] theorem setNext_self :
    (links.setNext (some place) value).next place = value :=
  Function.update_self ..

@[simp] theorem setPrev_self :
    (links.setPrev (some place) value).prev place = value :=
  Function.update_self ..

theorem setNext_other
    (different : node ≠ some place) :
    (links.setNext node value).next place = links.next place := by
  cases node with
  | none => rfl
  | some node =>
    exact Function.update_of_ne
      (fun same => different (congrArg some same.symm)) ..

theorem setPrev_other
    (different : node ≠ some place) :
    (links.setPrev node value).prev place = links.prev place := by
  cases node with
  | none => rfl
  | some node =>
    exact Function.update_of_ne
      (fun same => different (congrArg some same.symm)) ..

end Stores

/-- The pointers of a list of nodes, between two others. -/
def Segment (links : Links α) : Option α → List α → Option α → Prop
  | _, [], _ => True
  | before, node :: nodes, after =>
    links.prev node = before ∧
    links.next node = nodes.head?.or after ∧
    Segment links (some node) nodes after

variable {links later : Links α} {before after value : Option α}
variable {nodes front back : List α} {node : α}

/-- A segment depends on the pointers of its nodes only. -/
theorem Segment.frame
    (segment : links.Segment before nodes after)
    (sameNext : ∀ node ∈ nodes, later.next node = links.next node)
    (samePrev : ∀ node ∈ nodes, later.prev node = links.prev node) :
    later.Segment before nodes after := by
  induction nodes generalizing before with
  | nil =>
    trivial
  | cons node nodes inductionHypothesis =>
    obtain ⟨prev, next, rest⟩ := segment
    refine ⟨?_, ?_, inductionHypothesis rest ?_ ?_⟩
    · rw [samePrev node List.mem_cons_self]
      exact prev
    · rw [sameNext node List.mem_cons_self]
      exact next
    · intro other member
      exact sameNext other (List.mem_cons_of_mem _ member)
    · intro other member
      exact samePrev other (List.mem_cons_of_mem _ member)

theorem segment_append :
    links.Segment before (front ++ back) after ↔
      links.Segment before front (back.head?.or after) ∧
        links.Segment (front.getLast?.or before) back after := by
  induction front generalizing before with
  | nil =>
    exact (true_and _).symm.to_iff
  | cons node front inductionHypothesis =>
    have next_eq :
        (front ++ back).head?.or after =
          front.head?.or (back.head?.or after) := by
      rw [List.head?_append, Option.or_assoc]
    have last_eq :
        (node :: front).getLast?.or before =
          front.getLast?.or (some node) := by
      rw [List.getLast?_cons]
      cases front.getLast? <;> rfl
    change _ ∧ links.next node = (front ++ back).head?.or after ∧
      links.Segment (some node) (front ++ back) after ↔ _
    rw [inductionHypothesis, next_eq, last_eq]
    constructor
    · rintro ⟨prev, next, inFront, inBack⟩
      exact ⟨⟨prev, next, inFront⟩, inBack⟩
    · rintro ⟨⟨prev, next, inFront⟩, inBack⟩
      exact ⟨prev, next, inFront, inBack⟩

/-- A segment, place by place. -/
theorem segment_of_getElem?
    (prevs :
      ∀ place node, nodes[place]? = some node →
        links.prev node = if place = 0 then before else nodes[place - 1]?)
    (nexts :
      ∀ place node, nodes[place]? = some node →
        links.next node = nodes[place + 1]?.or after) :
    links.Segment before nodes after := by
  induction nodes generalizing before with
  | nil =>
    trivial
  | cons node nodes inductionHypothesis =>
    refine ⟨prevs 0 node rfl, ?_, inductionHypothesis ?_ ?_⟩
    · rw [nexts 0 node rfl, List.getElem?_cons_succ, List.head?_eq_getElem?]
    · intro place other stands
      rw [prevs (place + 1) other stands, if_neg (Nat.succ_ne_zero place)]
      cases place with
      | zero => rfl
      | succ place => rfl
    · intro place other stands
      exact nexts (place + 1) other stands

variable [DecidableEq α]

/-- A store into a node outside the segment. -/
theorem Segment.setNext_outside
    {target : Option α}
    (segment : links.Segment before nodes after)
    (outside : ∀ node ∈ nodes, target ≠ some node) :
    (links.setNext target value).Segment before nodes after :=
  segment.frame (fun node member => setNext_other (outside node member))
    (fun _ _ => by rw [setNext_prev])

theorem Segment.setPrev_outside
    {target : Option α}
    (segment : links.Segment before nodes after)
    (outside : ∀ node ∈ nodes, target ≠ some node) :
    (links.setPrev target value).Segment before nodes after :=
  segment.frame (fun _ _ => by rw [setPrev_next])
    (fun node member => setPrev_other (outside node member))

/-- A store into the first node changes what comes before. -/
theorem Segment.setPrev_head
    (segment : links.Segment before nodes after)
    (distinct : nodes.Nodup) :
    (links.setPrev nodes.head? value).Segment value nodes after := by
  cases nodes with
  | nil =>
    trivial
  | cons node nodes =>
    obtain ⟨-, next, rest⟩ := segment
    refine ⟨setPrev_self, ?_, ?_⟩
    · rw [setPrev_next]
      exact next
    · apply rest.setPrev_outside
      intro other member same
      cases same
      exact (List.nodup_cons.mp distinct).1 member

/-- A store into the last node changes what comes after. -/
theorem Segment.setNext_last
    (segment : links.Segment before nodes after)
    (distinct : nodes.Nodup) :
    (links.setNext nodes.getLast? value).Segment before nodes value := by
  induction nodes generalizing before with
  | nil =>
    trivial
  | cons node nodes inductionHypothesis =>
    obtain ⟨prev, next, rest⟩ := segment
    obtain ⟨absent, distinctRest⟩ := List.nodup_cons.mp distinct
    cases nodes with
    | nil =>
      refine ⟨?_, setNext_self, trivial⟩
      rw [setNext_prev]
      exact prev
    | cons second nodes =>
      have last_eq :
          (node :: second :: nodes).getLast? = (second :: nodes).getLast? :=
        List.getLast?_cons_cons
      rw [last_eq]
      refine ⟨?_, ?_, inductionHypothesis rest distinctRest⟩
      · rw [setNext_prev]
        exact prev
      · rw [setNext_other]
        · exact next
        · intro same
          exact absent (List.mem_of_getLast? same)

/-- Take a node out of the list between its two neighbours. -/
def unlink (node : α) (links : Links α) : Links α :=
  let without := links.setPrev (links.next node) (links.prev node)
  without.setNext (without.prev node) (without.next node)

/-- What both ends of a segment become when the node between them is taken out. -/
theorem Segment.unlink
    (segment : links.Segment none (front ++ node :: back) none)
    (distinct : (front ++ node :: back).Nodup) :
    (links.unlink node).Segment none (front ++ back) none := by
  obtain ⟨inFront, prev, next, inBack⟩ := segment_append.mp segment
  obtain ⟨distinctFront, distinctRest, apart⟩ := List.nodup_append.mp distinct
  obtain ⟨absent, distinctBack⟩ := List.nodup_cons.mp distinctRest
  rw [Option.or_none] at prev next
  have frontApart (target : α) (member : target ∈ front) :
      back.head? ≠ some target := by
    intro same
    exact apart target member target
      (List.mem_cons_of_mem _ (List.mem_of_mem_head? same)) rfl
  have backApart (target : α) (member : target ∈ back) :
      front.getLast? ≠ some target := by
    intro same
    exact apart target (List.mem_of_getLast? same) target
      (List.mem_cons_of_mem _ member) rfl
  have kept :
      (links.setPrev (links.next node) (links.prev node)).prev node =
        front.getLast? := by
    rw [setPrev_other, prev]
    intro same
    rw [next] at same
    exact absent (List.mem_of_mem_head? same)
  unfold Links.unlink
  simp only
  rw [kept, setPrev_next, next, prev]
  refine segment_append.mpr ⟨?_, ?_⟩
  · rw [Option.or_none]
    exact (inFront.setPrev_outside frontApart).setNext_last distinctFront
  · rw [Option.or_none]
    exact (inBack.setPrev_head distinctBack).setNext_outside backApart

/-- Put a node that is in no list before the first one. -/
def push (node : α) (head : Option α) (links : Links α) : Links α :=
  let alone := (links.setPrev (some node) none).setNext (some node) head
  alone.setPrev head (some node)

theorem Segment.push
    (segment : links.Segment none nodes none)
    (distinct : nodes.Nodup)
    (absent : node ∉ nodes) :
    (links.push node nodes.head?).Segment none (node :: nodes) none := by
  have outside (other : α) (member : other ∈ nodes) :
      some node ≠ some other := by
    intro same
    cases same
    exact absent member
  unfold Links.push
  refine ⟨?_, ?_, ?_⟩
  · rw [setPrev_other]
    · rw [setNext_prev]
      exact setPrev_self
    · intro same
      exact absent (List.mem_of_mem_head? same)
  · rw [setPrev_next, Option.or_none]
    exact setNext_self
  · exact ((segment.setPrev_outside outside).setNext_outside
      outside).setPrev_head distinct

/-- A list of nodes that closes on itself. -/
def Ring (links : Links α) (nodes : List α) : Prop :=
  links.Segment nodes.getLast? nodes nodes.head?

omit [DecidableEq α] in
/-- A ring has no first node. -/
theorem Ring.rotate
    (ring : links.Ring (front ++ back)) :
    links.Ring (back ++ front) := by
  cases front with
  | nil =>
    rw [List.append_nil]
    exact ring
  | cons first front =>
    cases back with
    | nil =>
      rw [List.append_nil] at ring
      exact ring
    | cons second back =>
      obtain ⟨inFront, inBack⟩ := segment_append.mp ring
      refine segment_append.mpr ⟨?_, ?_⟩
      · rw [List.getLast?_append] at inBack ⊢
        rw [List.getLast?_cons] at inBack ⊢
        exact inBack
      · rw [List.getLast?_append] at inFront ⊢
        rw [List.getLast?_cons] at inFront ⊢
        exact inFront

/-- Take a node out of a ring between its two neighbours. -/
def detach (node : α) (links : Links α) : Links α :=
  let without := links.setNext (links.prev node) (links.next node)
  without.setPrev (without.next node) (without.prev node)

theorem detach_next_self
    (notBefore : links.prev node ≠ some node) :
    (links.detach node).next node = links.next node := by
  unfold Links.detach
  simp only
  rw [setPrev_next, setNext_other notBefore]

theorem Ring.detach_alone
    (ring : links.Ring [node]) :
    (links.detach node).next node = some node ∧
      (links.detach node).prev node = some node := by
  have prev : links.prev node = some node := ring.1
  have next : links.next node = some node := ring.2.1
  unfold Links.detach
  simp only
  rw [prev, next, setPrev_next, setNext_prev, setNext_self, prev]
  exact ⟨rfl, setPrev_self⟩

theorem Ring.detach
    (ring : links.Ring (node :: nodes))
    (distinct : (node :: nodes).Nodup)
    (others : nodes ≠ []) :
    (links.detach node).Ring nodes := by
  obtain ⟨absent, distinctRest⟩ := List.nodup_cons.mp distinct
  obtain ⟨prev, next, rest⟩ := ring
  obtain ⟨second, more, rfl⟩ := List.exists_cons_of_ne_nil others
  rw [List.getLast?_cons_cons] at prev
  have kept :
      (links.setNext (links.prev node) (links.next node)).next node =
        links.next node := by
    apply setNext_other
    intro same
    rw [prev] at same
    exact absent (List.mem_of_getLast? same)
  unfold Links.detach
  simp only
  rw [kept, setNext_prev, prev, next]
  exact (rest.setNext_last distinctRest).setPrev_head distinctRest

/-- Put a node that is in no list behind the last one of a ring. -/
def enqueue (node head : α) (links : Links α) : Links α :=
  let forward := links.setNext (some node) (some head)
  let both := forward.setPrev (some node) (forward.prev head)
  let linked := both.setNext (both.prev head) (some node)
  linked.setPrev (some head) (some node)

theorem Ring.enqueue
    {head : α}
    (ring : links.Ring (head :: nodes))
    (distinct : (head :: nodes).Nodup)
    (absent : node ∉ head :: nodes) :
    (links.enqueue node head).Ring (head :: nodes ++ [node]) := by
  have outside (other : α) (member : other ∈ head :: nodes) :
      some node ≠ some other := by
    intro same
    cases same
    exact absent member
  have before : links.prev head = (head :: nodes).getLast? := ring.1
  have inside :
      (links.setNext (some node) (some head)).Segment
        (head :: nodes).getLast? (head :: nodes) (some head) :=
    Segment.setNext_outside ring outside
  unfold Links.enqueue
  simp only
  rw [setNext_prev, setPrev_other (outside head List.mem_cons_self),
    setNext_prev, before]
  have wholeRing :
      (((links.setNext (some node) (some head)).setPrev (some node)
        (head :: nodes).getLast?).setNext (head :: nodes).getLast?
          (some node)).Segment (head :: nodes).getLast? (head :: nodes)
            (some node) :=
    (inside.setPrev_outside outside).setNext_last distinct
  unfold Ring
  rw [List.getLast?_concat]
  refine segment_append.mpr ⟨wholeRing.setPrev_head distinct, ?_, ?_, trivial⟩
  · rw [setPrev_other, setNext_prev, setPrev_self]
    · rw [List.getLast?_cons]
      rfl
    · exact fun same => outside head List.mem_cons_self same.symm
  · rw [setPrev_next, setNext_other, setPrev_next, setNext_self]
    · rfl
    · intro same
      exact absent (List.mem_of_getLast? same)

/-- The ring of one node. -/
theorem Ring.enqueue_alone
    (closed : links.prev node = some node) :
    (links.enqueue node node).Ring [node] := by
  unfold Links.enqueue
  simp only
  rw [setNext_prev, setPrev_self, closed]
  refine ⟨setPrev_self, ?_, trivial⟩
  rw [setPrev_next]
  exact setNext_self

/-- Follow the pointers to a node that passes a test. -/
def find (links : Links α) (test : α → Bool) : Nat → Option α → Option α
  | 0, _ => none
  | _, none => none
  | turns + 1, some node =>
    if test node then some node else find links test turns (links.next node)

omit [DecidableEq α] in
theorem Segment.find
    {test : α → Bool} {turns : Nat}
    (segment : links.Segment before nodes none)
    (enough : nodes.length ≤ turns) :
    links.find test turns nodes.head? = nodes.find? test := by
  induction nodes generalizing before turns with
  | nil =>
    cases turns <;> rfl
  | cons node nodes inductionHypothesis =>
    obtain ⟨-, next, rest⟩ := segment
    cases turns with
    | zero =>
      exact absurd enough (Nat.not_succ_le_zero _)
    | succ turns =>
      rw [Option.or_none] at next
      unfold Links.find
      simp only [List.head?_cons]
      rw [next, inductionHypothesis rest (Nat.le_of_succ_le_succ enough),
        List.find?_cons]
      cases test node <;> rfl

/-- A table of lists: each node is in the list of its bucket, or in no list. -/
def Buckets
    {κ : Type}
    (links : Links α)
    (head : κ → Option α)
    (bucket : α → Option κ) : Prop :=
  ∀ key, ∃ nodes : List α,
    nodes.Nodup ∧ (∀ node, node ∈ nodes ↔ bucket node = some key) ∧
      head key = nodes.head? ∧ links.Segment none nodes none

section Tables

variable {κ : Type} [DecidableEq κ]
variable {head : κ → Option α} {bucket : α → Option κ} {key : κ}

/-- Taking a node out touches its two neighbours. -/
theorem unlink_other
    {other : α}
    (notItself : links.next node ≠ some node)
    (notBefore : links.prev node ≠ some other)
    (notAfter : links.next node ≠ some other) :
    (links.unlink node).next other = links.next other ∧
      (links.unlink node).prev other = links.prev other := by
  unfold Links.unlink
  simp only
  rw [setPrev_other notItself, setNext_other notBefore, setPrev_next,
    setNext_prev, setPrev_other notAfter]
  exact ⟨rfl, rfl⟩

omit [DecidableEq κ] [DecidableEq α] in
/-- The list of a node, with the node in the middle. -/
theorem Buckets.split
    (buckets : links.Buckets head bucket)
    (inList : bucket node = some key) :
    ∃ front back : List α,
      (front ++ node :: back).Nodup ∧
      (∀ other, other ∈ front ++ node :: back ↔ bucket other = some key) ∧
      head key = (front ++ node :: back).head? ∧
      links.Segment none (front ++ node :: back) none ∧
      links.prev node = front.getLast? ∧ links.next node = back.head? := by
  obtain ⟨nodes, distinct, members, first, segment⟩ := buckets key
  obtain ⟨front, back, rfl⟩ := List.append_of_mem ((members node).mpr inList)
  obtain ⟨-, prev, next, -⟩ := segment_append.mp segment
  rw [Option.or_none] at prev next
  exact ⟨front, back, distinct, members, first, segment, prev, next⟩

omit [DecidableEq κ] [DecidableEq α] in
/-- The neighbours of a node are in its list. -/
theorem Buckets.neighbours
    {other : α}
    (buckets : links.Buckets head bucket)
    (inList : bucket node = some key)
    (beside : links.next node = some other ∨ links.prev node = some other) :
    bucket other = some key ∧ other ≠ node := by
  obtain ⟨front, back, distinct, members, -, -, prev, next⟩ :=
    buckets.split inList
  obtain ⟨-, distinctRest, apart⟩ := List.nodup_append.mp distinct
  rw [prev, next] at beside
  rcases beside with after | before
  · have inBack := List.mem_of_mem_head? after
    refine ⟨(members other).mp ?_, ?_⟩
    · exact List.mem_append_right _ (List.mem_cons_of_mem _ inBack)
    · intro same
      subst same
      exact (List.nodup_cons.mp distinctRest).1 inBack
  · have inFront := List.mem_of_getLast? before
    refine ⟨(members other).mp (List.mem_append_left _ inFront), ?_⟩
    exact fun same => apart other inFront node List.mem_cons_self same

omit [DecidableEq κ] [DecidableEq α] in
/-- The lists depend on the pointers of their nodes only. -/
theorem Buckets.frame
    (buckets : links.Buckets head bucket)
    (same :
      ∀ node, bucket node ≠ none →
        later.next node = links.next node ∧ later.prev node = links.prev node) :
    later.Buckets head bucket := by
  intro key
  obtain ⟨nodes, distinct, members, first, segment⟩ := buckets key
  have used (node : α) (member : node ∈ nodes) : bucket node ≠ none := by
    rw [(members node).mp member]
    exact Option.some_ne_none key
  exact ⟨nodes, distinct, members, first,
    segment.frame (fun node member => (same node (used node member)).1)
      (fun node member => (same node (used node member)).2)⟩

theorem Buckets.unlink
    (buckets : links.Buckets head bucket)
    (inList : bucket node = some key) :
    (links.unlink node).Buckets
      (if head key = some node then
        Function.update head key ((links.unlink node).next node) else head)
      (Function.update bucket node none) := by
  obtain ⟨front, back, distinct, members, first, segment, prev, next⟩ :=
    buckets.split inList
  obtain ⟨-, distinctRest, apart⟩ := List.nodup_append.mp distinct
  obtain ⟨absentBack, -⟩ := List.nodup_cons.mp distinctRest
  have absentFront : node ∉ front := fun member =>
    apart node member node List.mem_cons_self rfl
  have notItself : links.next node ≠ some node := by
    rw [next]
    exact fun same => absentBack (List.mem_of_mem_head? same)
  have notBefore : links.prev node ≠ some node := by
    rw [prev]
    exact fun same => absentFront (List.mem_of_getLast? same)
  have nextSame : (links.unlink node).next node = back.head? := by
    rw [(unlink_other notItself notBefore notItself).1, next]
  intro other
  by_cases isKey : other = key
  · subst isKey
    refine ⟨front ++ back, ?_, ?_, ?_, segment.unlink distinct⟩
    · exact distinct.sublist
        (List.Sublist.append_left (List.sublist_cons_self node back) front)
    · intro place
      by_cases isNode : place = node
      · subst isNode
        rw [Function.update_self, List.mem_append]
        exact ⟨fun member => absurd member (not_or.mpr ⟨absentFront, absentBack⟩),
          nofun⟩
      · rw [Function.update_of_ne isNode, ← members place, List.mem_append,
          List.mem_append, List.mem_cons]
        simp only [isNode, false_or]
    · cases front with
      | nil =>
        have isFirst : head other = some node := first
        rw [if_pos isFirst, Function.update_self, nextSame]
        rfl
      | cons start front =>
        rw [if_neg]
        · exact first
        · rw [first]
          intro same
          cases same
          exact absentFront List.mem_cons_self
  · obtain ⟨nodes, distinctOther, membersOther, firstOther, segmentOther⟩ :=
      buckets other
    have outside (place : α) (member : place ∈ nodes) :
        (links.unlink node).next place = links.next place ∧
          (links.unlink node).prev place = links.prev place := by
      have elsewhere := (membersOther place).mp member
      have notHere (here : place ∈ front ++ node :: back) : False := by
        have inKey := (members place).mp here
        rw [elsewhere] at inKey
        cases inKey
        exact isKey rfl
      apply unlink_other notItself
      · rw [prev]
        intro same
        exact notHere (List.mem_append_left _ (List.mem_of_getLast? same))
      · rw [next]
        intro same
        exact notHere (List.mem_append_right _
          (List.mem_cons_of_mem _ (List.mem_of_mem_head? same)))
    refine ⟨nodes, distinctOther, ?_, ?_,
      segmentOther.frame (fun place member => (outside place member).1)
        (fun place member => (outside place member).2)⟩
    · intro place
      by_cases isNode : place = node
      · subst isNode
        rw [Function.update_self, membersOther, inList]
        refine ⟨fun same => ?_, nofun⟩
        cases same
        exact absurd rfl isKey
      · rw [Function.update_of_ne isNode]
        exact membersOther place
    · split
      · rw [Function.update_of_ne isKey]
        exact firstOther
      · exact firstOther

theorem Buckets.push
    (buckets : links.Buckets head bucket)
    (inNone : bucket node = none) :
    (links.push node (head key)).Buckets
      (Function.update head key (some node))
      (Function.update bucket node (some key)) := by
  obtain ⟨nodes, distinct, members, first, segment⟩ := buckets key
  have absent (list : List α) (other : κ)
      (membersOf : ∀ place, place ∈ list ↔ bucket place = some other) :
      node ∉ list := by
    intro member
    have inOther := (membersOf node).mp member
    rw [inNone] at inOther
    cases inOther
  intro other
  by_cases isKey : other = key
  · subst isKey
    refine ⟨node :: nodes, ?_, ?_, ?_, ?_⟩
    · exact List.nodup_cons.mpr ⟨absent nodes other members, distinct⟩
    · intro place
      by_cases isNode : place = node
      · subst isNode
        rw [Function.update_self]
        exact ⟨fun _ => rfl, fun _ => List.mem_cons_self⟩
      · rw [Function.update_of_ne isNode, List.mem_cons, ← members place]
        simp only [isNode, false_or]
    · rw [Function.update_self]
      rfl
    · rw [first]
      exact segment.push distinct (absent nodes other members)
  · obtain ⟨list, distinctOther, membersOther, firstOther, segmentOther⟩ :=
      buckets other
    have outside (place : α) (member : place ∈ list) :
        some node ≠ some place := by
      intro same
      cases same
      exact absent list other membersOther member
    have headOutside (place : α) (member : place ∈ list) :
        head key ≠ some place := by
      intro same
      rw [first] at same
      have inKey := (members place).mp (List.mem_of_mem_head? same)
      rw [(membersOther place).mp member] at inKey
      cases inKey
      exact isKey rfl
    refine ⟨list, distinctOther, ?_, ?_, ?_⟩
    · intro place
      by_cases isNode : place = node
      · subst isNode
        rw [Function.update_self, membersOther, inNone]
        refine ⟨nofun, fun same => ?_⟩
        cases same
        exact absurd rfl isKey
      · rw [Function.update_of_ne isNode]
        exact membersOther place
    · rw [Function.update_of_ne isKey]
      exact firstOther
    · exact ((segmentOther.setPrev_outside outside).setNext_outside
        outside).setPrev_outside headOutside

end Tables

end Links

end HitOs
