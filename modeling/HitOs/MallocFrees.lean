import HitOs.MallocPages

namespace HitOs

/-!
# Giving a bucket back

The searches of `malloc` and `free_s`, and what `free_s` does with a bucket that has
no block in use any more.
-/

namespace Heap

open Routine

variable {layout : Layout} {heap after : Heap} {live : Live}
variable {size bdesc page start prev turns : Nat}
variable {nodes earlier later pool : List Nat}

/-! ## Searches -/

theorem pointer_cons
    {node : Nat} {rest : List Nat} {next : Nat → Option Nat}
    (linked : Linked next (pointer start) (node :: rest)) :
    start = node ∧ start ≠ 0 := by
  obtain ⟨same, notNull⟩ := pointer_eq_some linked.1
  exact ⟨same, same ▸ notNull⟩

theorem pointer_nil
    {next : Nat → Option Nat}
    (linked : Linked next (pointer start) []) :
    start = 0 := by
  rw [Linked.nil_iff] at linked
  unfold pointer at linked
  split_ifs at linked with null
  exact null

/-- One turn of the search for a bucket with free space. -/
theorem searchFree_turn
    (more : 0 < turns) :
    searchFree turns start heap =
      if start = 0 then .ret 0 heap
      else if heap.freeptr start ≠ 0 then .ret start heap
      else searchFree (turns - 1) (heap.next start) heap := by
  obtain ⟨turns, rfl⟩ := Nat.exists_eq_succ_of_ne_zero (Nat.ne_of_gt more)
  rw [searchFree]
  change (if start = 0 then _ else _ : Routine Heap Nat) heap = _
  split_ifs <;> rfl

/-- One turn of the inner search of `free_s`. -/
theorem searchPage_turn
    (more : 0 < turns) :
    searchPage page turns start prev heap =
      if start = 0 then .ret none heap
      else if heap.page start = page then .ret (some (start, prev)) heap
      else searchPage page (turns - 1) (heap.next start) start heap := by
  obtain ⟨turns, rfl⟩ := Nat.exists_eq_succ_of_ne_zero (Nat.ne_of_gt more)
  rw [searchPage]
  change (if start = 0 then _ else _ : Routine Heap (Option (Nat × Nat))) heap = _
  split_ifs <;> rfl

theorem searchFree_none
    (linked : Linked heap.nextOf (pointer start) nodes)
    (enough : nodes.length < turns)
    (full : ∀ node ∈ nodes, heap.freeptr node = 0) :
    searchFree turns start heap = .ret 0 heap := by
  induction nodes generalizing start turns with
  | nil =>
    have null := pointer_nil linked
    rw [searchFree_turn (by omega), if_pos null]
  | cons node rest inductionHypothesis =>
    rw [List.length_cons] at enough
    obtain ⟨rfl, notNull⟩ := pointer_cons linked
    rw [searchFree_turn (by omega), if_neg notNull,
      if_neg (not_not.mpr (full start List.mem_cons_self))]
    exact inductionHypothesis linked.2 (by omega)
      fun other member => full other (List.mem_cons_of_mem _ member)

theorem searchFree_found
    (linked : Linked heap.nextOf (pointer start) (earlier ++ bdesc :: later))
    (enough : (earlier ++ bdesc :: later).length < turns)
    (full : ∀ node ∈ earlier, heap.freeptr node = 0)
    (space : heap.freeptr bdesc ≠ 0) :
    searchFree turns start heap = .ret bdesc heap := by
  induction earlier generalizing start turns with
  | nil =>
    obtain ⟨rfl, notNull⟩ := pointer_cons linked
    rw [searchFree_turn (by omega), if_neg notNull, if_pos space]
  | cons node rest inductionHypothesis =>
    rw [List.cons_append, List.length_cons] at enough
    obtain ⟨rfl, notNull⟩ := pointer_cons linked
    rw [searchFree_turn (by omega), if_neg notNull,
      if_neg (not_not.mpr (full start List.mem_cons_self))]
    exact inductionHypothesis linked.2 (by omega)
      fun other member => full other (List.mem_cons_of_mem _ member)

theorem searchPage_none
    (linked : Linked heap.nextOf (pointer start) nodes)
    (enough : nodes.length < turns)
    (others : ∀ node ∈ nodes, heap.page node ≠ page) :
    searchPage page turns start prev heap = .ret none heap := by
  induction nodes generalizing start turns prev with
  | nil =>
    have null := pointer_nil linked
    rw [searchPage_turn (by omega), if_pos null]
  | cons node rest inductionHypothesis =>
    rw [List.length_cons] at enough
    obtain ⟨rfl, notNull⟩ := pointer_cons linked
    rw [searchPage_turn (by omega), if_neg notNull,
      if_neg (others start List.mem_cons_self)]
    exact inductionHypothesis linked.2 (by omega)
      fun other member => others other (List.mem_cons_of_mem _ member)

/-- What is found comes with the descriptor before it. -/
theorem searchPage_found
    (linked : Linked heap.nextOf (pointer start) (earlier ++ bdesc :: later))
    (enough : (earlier ++ bdesc :: later).length < turns)
    (others : ∀ node ∈ earlier, heap.page node ≠ page)
    (here : heap.page bdesc = page) :
    searchPage page turns start prev heap =
      .ret (some (bdesc, earlier.getLastD prev)) heap := by
  induction earlier generalizing start turns prev with
  | nil =>
    obtain ⟨rfl, notNull⟩ := pointer_cons linked
    rw [searchPage_turn (by omega), if_neg notNull, if_pos here]
    rfl
  | cons node rest inductionHypothesis =>
    rw [List.cons_append, List.length_cons] at enough
    obtain ⟨rfl, notNull⟩ := pointer_cons linked
    rw [searchPage_turn (by omega), if_neg notNull,
      if_neg (others start List.mem_cons_self), List.getLastD_cons]
    exact inductionHypothesis linked.2 (by omega)
      fun other member => others other (List.mem_cons_of_mem _ member)

/-- The search over all sizes, where one chain has a descriptor with the page. -/
theorem searchDirs_found
    {request : Int} {sizes : List Nat}
    (represents : Represents layout heap)
    (inTable : ∀ other ∈ sizes, other ∈ bucketDir)
    (member : size ∈ sizes)
    (large : request ≤ size)
    (shape : layout.chains size = earlier ++ bdesc :: later)
    (enough : ∀ other ∈ sizes, (layout.chains other).length < turns)
    (here : heap.page bdesc = page)
    (others : ∀ other ∈ sizes, ∀ node ∈ layout.chains other,
      heap.page node = page → other = size ∧ node ∉ earlier) :
    searchDirs page turns request sizes heap =
      .ret (some (size, bdesc, earlier.getLastD 0)) heap := by
  induction sizes with
  | nil =>
    exact absurd member List.not_mem_nil
  | cons first rest inductionHypothesis =>
    have linked := represents.chain (inTable first List.mem_cons_self)
    unfold searchDirs
    by_cases same : first = size
    · subst same
      have finds : searchPage page turns (heap.chain first) 0 heap =
          .ret (some (bdesc, earlier.getLastD 0)) heap := by
        have enough := enough first List.mem_cons_self
        rw [shape] at linked enough
        refine searchPage_found linked enough (fun node inside found => ?_) here
        refine (others first List.mem_cons_self node ?_ found).2 inside
        rw [shape]
        exact List.mem_append_left _ inside
      have reads : (Routine.read : Routine Heap Heap) heap = .ret heap heap :=
        rfl
      rw [if_neg (by omega), bind_of_ret reads, bind_of_ret finds]
      rfl
    · have later : size ∈ rest :=
        (List.mem_cons.mp member).resolve_left (Ne.symm same)
      have goesOn := inductionHypothesis
        (fun other inside => inTable other (List.mem_cons_of_mem _ inside))
        later
        (fun other inside => enough other (List.mem_cons_of_mem _ inside))
        (fun other inside => others other (List.mem_cons_of_mem _ inside))
      by_cases skipped : (first : Int) < request
      · rw [if_pos skipped]
        exact goesOn
      · have finds : searchPage page turns (heap.chain first) 0 heap =
            .ret none heap :=
          searchPage_none linked (enough first List.mem_cons_self)
            fun node inside found =>
              same (others first List.mem_cons_self node inside found).1
        have reads : (Routine.read : Routine Heap Heap) heap = .ret heap heap := rfl
        rw [if_neg skipped, bind_of_ret reads, bind_of_ret finds]
        exact goesOn

/-! ## A bucket without blocks in use -/

/-- The layout without the bucket. -/
def Layout.drop
    (layout : Layout)
    (size bdesc : Nat)
    (nodes : List Nat) : Layout :=
  { layout with
    chains := Function.update layout.chains size nodes
    pool := bdesc :: layout.pool }

theorem Layout.Valid.inChain_drop
    {pages : Finset Nat} {other another : Nat}
    (valid : layout.Valid pages live)
    (member : size ∈ bucketDir)
    (shape : layout.chains size = earlier ++ bdesc :: later) :
    (layout.drop size bdesc (earlier ++ later)).InChain other another ↔
      layout.InChain other another ∧ another ≠ bdesc := by
  have inChain : layout.InChain size bdesc := by
    refine ⟨member, ?_⟩
    rw [shape]
    exact List.mem_append_right _ List.mem_cons_self
  have nodup := valid.chainNodup member
  rw [shape, List.nodup_middle] at nodup
  obtain ⟨notAgain, _⟩ := List.nodup_cons.mp nodup
  unfold Layout.InChain Layout.drop
  dsimp only
  by_cases here : other = size
  · subst here
    rw [Function.update_self, shape]
    simp only [List.mem_append, List.mem_cons]
    constructor
    · rintro ⟨_, inside⟩
      refine ⟨⟨member, ?_⟩, ?_⟩
      · rcases inside with inside | inside
        · exact Or.inl inside
        · exact Or.inr (Or.inr inside)
      · rintro rfl
        exact notAgain (List.mem_append.mpr inside)
    · rintro ⟨⟨_, inside⟩, different⟩
      refine ⟨member, ?_⟩
      rcases inside with inside | same | inside
      · exact Or.inl inside
      · exact absurd same different
      · exact Or.inr inside
  · rw [Function.update_of_ne here]
    constructor
    · rintro ⟨otherMember, inside⟩
      refine ⟨⟨otherMember, inside⟩, ?_⟩
      rintro rfl
      exact here (valid.oneSize ⟨otherMember, inside⟩ inChain)
    · exact fun both => both.1

theorem Layout.Valid.drop
    {pages : Finset Nat}
    (valid : layout.Valid pages live)
    (member : size ∈ bucketDir)
    (shape : layout.chains size = earlier ++ bdesc :: later)
    (unused : ∀ block ∈ blocks size (layout.page bdesc), block ∈ layout.free bdesc) :
    (layout.drop size bdesc (earlier ++ later)).Valid
      (pages.erase (layout.page bdesc)) live := by
  have inChain : layout.InChain size bdesc := by
    refine ⟨member, ?_⟩
    rw [shape]
    exact List.mem_append_right _ List.mem_cons_self
  have nodup := valid.chainNodup member
  rw [shape, List.nodup_middle] at nodup
  have iff {other another : Nat} :
      (layout.drop size bdesc (earlier ++ later)).InChain other another ↔
        layout.InChain other another ∧ another ≠ bdesc :=
    valid.inChain_drop member shape
  refine
    { oneSize := fun one two => valid.oneSize (iff.mp one).1 (iff.mp two).1
      notPool := fun otherIn inPool => ?_
      chainNodup := fun {other} otherMember => ?_
      poolNodup := List.nodup_cons.mpr ⟨valid.notPool inChain, valid.poolNodup⟩
      descs := ?_
      allPages := ?_
      notDescs := fun otherIn => valid.notDescs (iff.mp otherIn).1
      onePage := fun one two => valid.onePage (iff.mp one).1 (iff.mp two).1
      main := fun inPages => valid.main (Finset.mem_of_mem_erase inPages)
      inside := fun otherIn => valid.inside (iff.mp otherIn).1
      freeNodup := fun otherIn => valid.freeNodup (iff.mp otherIn).1
      used := ?_
      fits := fun inUse otherIn => valid.fits inUse (iff.mp otherIn).1
      liveNodup := valid.liveNodup }
  · obtain ⟨otherIn, different⟩ := iff.mp otherIn
    rcases List.mem_cons.mp inPool with same | inPool
    · exact different same
    · exact valid.notPool otherIn inPool
  · change (Function.update layout.chains size _ other).Nodup
    by_cases here : other = size
    · subst here
      rw [Function.update_self]
      exact (List.nodup_cons.mp nodup).2
    · rw [Function.update_of_ne here]
      exact valid.chainNodup otherMember
  · intro other
    refine Iff.trans ?_ valid.descs
    unfold Layout.IsDesc
    simp only [iff]
    change (other ∈ bdesc :: layout.pool ∨ _) ↔ _
    rw [List.mem_cons]
    constructor
    · rintro ((rfl | inPool) | ⟨otherSize, otherIn, _⟩)
      · exact Or.inr ⟨size, inChain⟩
      · exact Or.inl inPool
      · exact Or.inr ⟨otherSize, otherIn⟩
    · rintro (inPool | ⟨otherSize, otherIn⟩)
      · exact Or.inl (Or.inr inPool)
      · by_cases here : other = bdesc
        · exact Or.inl (Or.inl here)
        · exact Or.inr ⟨otherSize, otherIn, here⟩
  · intro other
    rw [Finset.mem_erase, valid.allPages]
    simp only [iff]
    constructor
    · rintro ⟨different, inDescs | ⟨otherSize, another, otherIn, rfl⟩⟩
      · exact Or.inl inDescs
      · refine Or.inr ⟨otherSize, another, ⟨otherIn, ?_⟩, rfl⟩
        rintro rfl
        exact different rfl
    · rintro (inDescs | ⟨otherSize, another, ⟨otherIn, different⟩, rfl⟩)
      · refine ⟨?_, Or.inl inDescs⟩
        rintro rfl
        exact valid.notDescs inChain inDescs
      · exact ⟨fun same => different (valid.onePage otherIn inChain same),
          Or.inr ⟨otherSize, another, otherIn, rfl⟩⟩
  · intro block
    rw [valid.used]
    simp only [iff]
    constructor
    · rintro ⟨otherSize, other, otherIn, inPage, notFree⟩
      refine ⟨otherSize, other, ⟨otherIn, ?_⟩, inPage, notFree⟩
      rintro rfl
      rw [valid.oneSize otherIn inChain] at inPage
      exact notFree (unused block inPage)
    · rintro ⟨otherSize, other, ⟨otherIn, _⟩, inPage, notFree⟩
      exact ⟨otherSize, other, otherIn, inPage, notFree⟩

/-- The chain without the descriptor behind `prev`, or without the first one. -/
def unlinked (size bdesc prev : Nat) (heap : Heap) : Heap :=
  if prev ≠ 0 then
    heap.setNext prev (heap.next bdesc)
  else
    heap.setChain size (heap.next bdesc)

/-- A page that has been given back. -/
def returned (page : Nat) (heap : Heap) : Heap :=
  { heap with
    memory := Memory.setMap (page - Memory.lowMemPage) 0#8 heap.memory
    pages := heap.pages.erase page }

/-- A descriptor in the pool. -/
def pooled (bdesc : Nat) (heap : Heap) : Heap :=
  (heap.setNext bdesc heap.freeBucketDesc).setFreeBucketDesc bdesc

theorem freePage_eq
    (owns : Owns heap.memory page) :
    freePage (page * 4096) heap = .ret () (heap.returned page) := by
  have number : page * 4096 / 4096 = page := by omega
  have gives : Memory.freePage page heap.memory =
      .ret ()
        (Memory.setMap (page - Memory.lowMemPage) 0#8 heap.memory) := by
    have counted : heap.memory.memMap (page - Memory.lowMemPage) ≠ 0#8 := by
      rw [owns.count]
      decide
    unfold Memory.freePage
    have reads : (Routine.read : Routine Memory Memory) heap.memory =
        .ret heap.memory heap.memory := rfl
    rw [if_neg (Nat.not_lt.mpr owns.above), bind_of_ret reads,
      if_neg (Nat.not_le.mpr owns.below), if_pos counted, owns.count]
    rfl
  have zoomed : onMemory (Memory.freePage page) heap =
      .ret ()
        { heap with
          memory :=
            Memory.setMap (page - Memory.lowMemPage) 0#8 heap.memory } := by
    unfold onMemory zoom
    rw [gives]
  unfold freePage
  rw [number, bind_of_ret zoomed]
  rfl

theorem dropBucket_eq
    (behind : prev ≠ 0 → heap.next prev = bdesc)
    (first : prev = 0 → heap.chain size = bdesc)
    (owned : (heap.unlinked size bdesc prev).page bdesc = page * 4096)
    (owns : Owns (heap.unlinked size bdesc prev).memory page) :
    dropBucket size bdesc prev turns heap =
      .ret () (((heap.unlinked size bdesc prev).returned page).pooled bdesc) := by
  have reads {state : Heap} : (Routine.read : Routine Heap Heap) state =
      .ret state state := rfl
  have accurate : ¬ ((prev ≠ 0 ∧ heap.next prev ≠ bdesc) ∨
      (prev = 0 ∧ heap.chain size ≠ bdesc)) := by
    rintro (⟨notNull, wrong⟩ | ⟨null, wrong⟩)
    · exact wrong (behind notNull)
    · exact wrong (first null)
  have same : (pure prev : Routine Heap Nat) heap = .ret prev heap := rfl
  have unlinks : unlink size bdesc prev heap =
      .ret () (heap.unlinked size bdesc prev) := by
    unfold unlink unlinked
    rw [bind_of_ret reads]
    by_cases null : prev = 0
    · rw [if_neg (not_not.mpr null), if_neg (not_not.mpr (first null)),
        if_neg (not_not.mpr null)]
      rfl
    · rw [if_pos null, if_pos null]
      rfl
  have gives : giveBack bdesc (heap.unlinked size bdesc prev) =
      .ret () (((heap.unlinked size bdesc prev).returned page).pooled
        bdesc) := by
    unfold giveBack
    rw [bind_of_ret reads, owned, bind_of_ret (freePage_eq owns)]
    rfl
  unfold dropBucket
  rw [bind_of_ret reads, if_neg accurate, bind_of_ret same]
  change (unlink size bdesc prev >>= fun _ => giveBack bdesc) heap = _
  rw [bind_of_ret unlinks, gives]

theorem load_unlinked
    {address : Nat} :
    (heap.unlinked size bdesc prev).load address =
      if prev ≠ 0 ∧ address / 4 = (prev + 4) / 4 then heap.next bdesc
      else heap.load address := by
  unfold unlinked
  by_cases null : prev = 0
  · rw [if_neg (not_not.mpr null), if_neg (fun both => both.1 null), load_setChain]
  · have small : heap.next bdesc < 2 ^ 32 := load_lt _ _
    rw [if_pos null]
    unfold setNext
    rw [load_save small]
    simp only [ne_eq, null, not_false_eq_true, true_and]

theorem unlinked_rest (size bdesc prev : Nat) (heap : Heap) :
    (heap.unlinked size bdesc prev).freeBucketDesc = heap.freeBucketDesc ∧
      (heap.unlinked size bdesc prev).pages = heap.pages ∧
        (heap.unlinked size bdesc prev).memory.memMap = heap.memory.memMap ∧
          (heap.unlinked size bdesc prev).memory.highMemory =
            heap.memory.highMemory ∧
            (heap.unlinked size bdesc prev).chain =
              if prev ≠ 0 then heap.chain
              else Function.update heap.chain size (heap.next bdesc) := by
  unfold unlinked
  split_ifs
  · exact ⟨rfl, rfl, rfl, rfl, rfl⟩
  · exact ⟨rfl, rfl, rfl, rfl, rfl⟩

/-- The heap after a bucket has been given back. -/
def dropped (size bdesc prev page : Nat) (heap : Heap) : Heap :=
  ((heap.unlinked size bdesc prev).returned page).pooled bdesc

theorem load_dropped
    {address : Nat}
    (small : heap.freeBucketDesc < 2 ^ 32) :
    (heap.dropped size bdesc prev page).load address =
      if address / 4 = (bdesc + 4) / 4 then heap.freeBucketDesc
      else if prev ≠ 0 ∧ address / 4 = (prev + 4) / 4 then heap.next bdesc
      else heap.load address := by
  have rest := unlinked_rest size bdesc prev heap
  have pool : ((heap.unlinked size bdesc prev).returned page).freeBucketDesc =
      heap.freeBucketDesc := rest.1
  unfold dropped pooled
  rw [load_setFreeBucketDesc, pool]
  unfold setNext
  rw [load_save small]
  split_ifs with isNext isPrev
  · rfl
  · have word : ((heap.unlinked size bdesc prev).returned page).load address =
        (heap.unlinked size bdesc prev).load address := rfl
    rw [word, load_unlinked, if_pos isPrev]
  · have word : ((heap.unlinked size bdesc prev).returned page).load address =
        (heap.unlinked size bdesc prev).load address := rfl
    rw [word, load_unlinked, if_neg isPrev]

theorem dropped_rest (size bdesc prev page : Nat) (heap : Heap) :
    (heap.dropped size bdesc prev page).freeBucketDesc = bdesc ∧
      (heap.dropped size bdesc prev page).pages = heap.pages.erase page ∧
        (heap.dropped size bdesc prev page).memory.memMap =
          Function.update heap.memory.memMap (page - Memory.lowMemPage) 0#8 ∧
          (heap.dropped size bdesc prev page).memory.highMemory =
            heap.memory.highMemory ∧
            (heap.dropped size bdesc prev page).chain =
              if prev ≠ 0 then heap.chain
              else Function.update heap.chain size (heap.next bdesc) := by
  have rest := unlinked_rest size bdesc prev heap
  unfold dropped pooled returned setNext
  refine ⟨rfl, ?_, ?_, ?_, ?_⟩
  · rw [pages_setFreeBucketDesc, pages_save, rest.2.1]
  · rw [memory_setFreeBucketDesc, memMap_save]
    unfold Memory.setMap
    dsimp only
    rw [rest.2.2.1]
  · rw [memory_setFreeBucketDesc, highMemory_save]
    exact rest.2.2.2.1
  · rw [chain_setFreeBucketDesc, chain_save]
    exact rest.2.2.2.2

theorem Represents.drop
    (represents : Represents layout heap)
    (valid : layout.Valid heap.pages live)
    (member : size ∈ bucketDir)
    (shape : layout.chains size = earlier ++ bdesc :: later) :
    Represents (layout.drop size bdesc (earlier ++ later))
      (heap.dropped size bdesc (earlier.getLastD 0) (layout.page bdesc)) := by
  have inside : bdesc ∈ layout.chains size := by
    rw [shape]
    exact List.mem_append_right _ List.mem_cons_self
  have inChain : layout.InChain size bdesc := ⟨member, inside⟩
  have isDesc : layout.IsDesc bdesc := Or.inr ⟨size, inChain⟩
  have bounds := valid.desc_bounds isDesc
  have nodup := valid.chainNodup member
  rw [shape] at nodup
  have owns := represents.owns
    (valid.allPages.mpr (Or.inr ⟨size, bdesc, inChain, rfl⟩))
  have small : heap.freeBucketDesc < 2 ^ 32 :=
    pointer_lt represents.pool fun other inPool => valid.desc_lt (Or.inl inPool)
  have iff {other another : Nat} :
      (layout.drop size bdesc (earlier ++ later)).InChain other another ↔
        layout.InChain other another ∧ another ≠ bdesc :=
    valid.inChain_drop member shape
  -- The descriptor before it, if there is one, is in the same chain.
  have before : earlier.getLastD 0 = 0 ∨
      layout.InChain size (earlier.getLastD 0) := by
    rcases List.eq_nil_or_concat earlier with rfl | ⟨init, last, rfl⟩
    · exact Or.inl rfl
    · refine Or.inr ⟨member, ?_⟩
      rw [shape, List.concat_eq_append, List.getLastD_concat]
      simp
  generalize previous : earlier.getLastD 0 = prev at before ⊢
  have rest := dropped_rest size bdesc prev (layout.page bdesc) heap
  obtain ⟨after, result⟩ :
      ∃ after, after = heap.dropped size bdesc prev (layout.page bdesc) :=
    ⟨_, rfl⟩
  have words {address : Nat} :
      after.load address =
        if address / 4 = (bdesc + 4) / 4 then heap.freeBucketDesc
        else if prev ≠ 0 ∧ address / 4 = (prev + 4) / 4 then heap.next bdesc
        else heap.load address := by
    rw [result]
    exact load_dropped small
  rw [← result] at rest ⊢
  -- Only the `next` fields of the two descriptors change.
  have descWord {other k : Nat} (otherIsDesc : layout.IsDesc other)
      (within : k < 16)
      (kept : k < 4 ∨ 8 ≤ k ∨ (other ≠ bdesc ∧ other ≠ prev)) :
      after.load (other + k) = heap.load (other + k) := by
    have otherBounds := valid.desc_bounds otherIsDesc
    rw [words, if_neg, if_neg]
    · rintro ⟨notNull, same⟩
      have prevIsDesc : layout.IsDesc prev :=
        Or.inr ⟨size, before.resolve_left notNull⟩
      have prevBounds := valid.desc_bounds prevIsDesc
      by_cases here : other = prev
      · subst here
        omega
      · exact valid.desc_ne_desc otherIsDesc prevIsDesc here within
          (by decide) same
    · intro same
      by_cases here : other = bdesc
      · subst here
        omega
      · exact valid.desc_ne_desc otherIsDesc isDesc here within (by decide) same
  have next {other : Nat} (otherIsDesc : layout.IsDesc other)
      (notDropped : other ≠ bdesc) (notBefore : other ≠ prev) :
      after.nextOf other = heap.nextOf other := by
    unfold nextOf Heap.next
    rw [descWord otherIsDesc (by decide)
      (Or.inr (Or.inr ⟨notDropped, notBefore⟩))]
  have pooledNext : after.nextOf bdesc = pointer heap.freeBucketDesc := by
    unfold nextOf Heap.next
    rw [words, if_pos rfl]
  refine
    { chain := fun {other} otherMember => ?_, pool := ?_
      page := fun {otherSize other} otherIn => ?_
      free := fun {otherSize other} otherIn => ?_
      refcnt := fun {otherSize other} otherIn => ?_
      owns := fun {other} inPages => ?_, freeInMemory := ?_ }
  · rw [rest.2.2.2.2]
    change Linked _ _ (Function.update layout.chains size _ other)
    by_cases here : other = size
    · subst here
      rw [Function.update_self]
      have linked := represents.chain member
      rw [shape] at linked
      rcases List.eq_nil_or_concat earlier with rfl | ⟨init, last, rfl⟩
      · have null : prev = 0 := previous.symm
        rw [if_neg (not_not.mpr null), Function.update_self]
        obtain ⟨_, tail⟩ := linked
        refine tail.congr fun another inLater => ?_
        obtain ⟨notAgain, _⟩ := List.nodup_cons.mp nodup
        have described : layout.IsDesc another := by
          refine Or.inr ⟨other, member, ?_⟩
          rw [shape]
          exact List.mem_cons_of_mem _ inLater
        refine next described (fun same => notAgain (same ▸ inLater)) ?_
        rintro rfl
        have positive := valid.desc_bounds described
        omega
      · rw [List.concat_eq_append, List.getLastD_concat] at previous
        subst previous
        rw [List.concat_eq_append, List.append_assoc] at linked nodup shape ⊢
        have lastIn : layout.IsDesc last := by
          refine Or.inr ⟨other, member, ?_⟩
          rw [shape]
          simp
        have positive := valid.desc_bounds lastIn
        have removed := linked.remove nodup
        have different : last ≠ bdesc := by
          rintro rfl
          have twice := (List.nodup_append.mp nodup).2.1
          exact (List.nodup_cons.mp twice).1 List.mem_cons_self
        rw [if_pos (by omega)]
        refine removed.congr fun another inRest => ?_
        by_cases isLast : another = last
        · subst isLast
          rw [Function.update_self]
          unfold nextOf Heap.next
          rw [words, if_neg (valid.desc_ne_desc lastIn isDesc different
            (by decide) (by decide)), if_pos ⟨by omega, rfl⟩]
          rfl
        · rw [Function.update_of_ne isLast]
          have described : layout.IsDesc another := by
            refine Or.inr ⟨other, member, ?_⟩
            rw [shape]
            simp only [List.mem_append, List.mem_cons] at inRest ⊢
            rcases inRest with inInit | same | inLater
            · exact Or.inl inInit
            · exact absurd same isLast
            · exact Or.inr (Or.inr (Or.inr inLater))
          refine next described ?_ isLast
          rintro rfl
          have again := nodup
          rw [show init ++ ([last] ++ another :: later) =
            (init ++ [last]) ++ another :: later by simp,
            List.nodup_middle] at again
          refine (List.nodup_cons.mp again).1 ?_
          simp only [List.mem_append, List.mem_cons] at inRest ⊢
          rcases inRest with inInit | same | inLater
          · exact Or.inl (Or.inl inInit)
          · exact absurd same isLast
          · exact Or.inr inLater
    · rw [Function.update_of_ne here]
      have sameChain : (if prev ≠ 0 then heap.chain
          else Function.update heap.chain size (heap.next bdesc)) other =
            heap.chain other := by
        split_ifs
        · rfl
        · exact Function.update_of_ne here _ _
      rw [sameChain]
      refine (represents.chain otherMember).congr fun another inOther => ?_
      have anotherIn : layout.InChain other another := ⟨otherMember, inOther⟩
      refine next (Or.inr ⟨other, anotherIn⟩) ?_ ?_
      · rintro rfl
        exact here (valid.oneSize anotherIn inChain)
      · rintro rfl
        rcases before with null | prevIn
        · have positive := valid.desc_bounds
            (Or.inr ⟨other, anotherIn⟩ : layout.IsDesc another)
          omega
        · exact here (valid.oneSize anotherIn prevIn)
  · rw [rest.1]
    refine ⟨if_neg (by omega), ?_⟩
    rw [pooledNext]
    refine represents.pool.congr fun other inPool => ?_
    refine next (Or.inl inPool) ?_ ?_
    · rintro rfl
      exact valid.notPool inChain inPool
    · rintro rfl
      rcases before with null | prevIn
      · have positive := valid.desc_bounds (Or.inl inPool : layout.IsDesc other)
        omega
      · exact valid.notPool prevIn inPool
  · obtain ⟨otherIn, _⟩ := iff.mp otherIn
    exact (descWord (k := 0) (Or.inr ⟨otherSize, otherIn⟩) (by decide)
      (Or.inl (by decide))).trans (represents.page otherIn)
  · obtain ⟨otherIn, _⟩ := iff.mp otherIn
    have word : after.freeptr other = heap.freeptr other :=
      descWord (Or.inr ⟨otherSize, otherIn⟩) (by decide)
        (Or.inr (Or.inl (by decide)))
    rw [word]
    refine (represents.free otherIn).congr fun block inFree => ?_
    have inPage := block_page otherIn.1 (valid.inside otherIn block inFree)
    unfold linkOf
    rw [words, if_neg (valid.desc_ne_block isDesc otherIn (by decide)
      inPage).symm, if_neg]
    rintro ⟨notNull, same⟩
    exact valid.desc_ne_block
      (Or.inr ⟨size, before.resolve_left notNull⟩ : layout.IsDesc prev) otherIn
      (by decide) inPage same.symm
  · obtain ⟨otherIn, _⟩ := iff.mp otherIn
    have word : after.refcnt other = heap.refcnt other :=
      congrArg (· % 65536) (descWord (Or.inr ⟨otherSize, otherIn⟩) (by decide)
        (Or.inr (Or.inl (by decide))))
    rw [word]
    exact represents.refcnt otherIn
  · rw [rest.2.1] at inPages
    obtain ⟨different, inPages⟩ := Finset.mem_erase.mp inPages
    have otherOwns := represents.owns inPages
    have above := owns.above
    have otherAbove := otherOwns.above
    refine ⟨otherAbove, rest.2.2.2.1 ▸ otherOwns.below, ?_⟩
    rw [rest.2.2.1, Function.update_of_ne (by omega)]
    exact otherOwns.count
  · refine ⟨rest.2.2.2.1 ▸ represents.freeInMemory.1, fun index below unused => ?_⟩
    rw [rest.2.2.2.1]
    rw [rest.2.2.1] at unused
    by_cases here : index = layout.page bdesc - Memory.lowMemPage
    · have above := owns.above
      rw [here, Nat.sub_add_cancel above]
      exact owns.below
    · rw [Function.update_of_ne here] at unused
      exact represents.freeInMemory.2 index below unused

end Heap

end HitOs
