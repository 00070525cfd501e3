import HitOs.PageRuns

namespace HitOs

/-!
# The argument pages of a program

`do_execve` collects the arguments in pages of its own.  At the point of no return
it frees the page tables of the caller, and `change_ldt` maps the pages at the end
of the slot without a look at what `put_page` answers.
-/

namespace Memory

open Routine

/-- `MAX_ARG_PAGES` -/
def maxArgPages : Nat :=
  32

/--
The loop of `change_ldt` for the first pages, with the addresses that end at
`dataBase`.  What is returned are the results of `put_page`, which the source ignores.
-/
def placePages (page : Nat → Nat) : Nat → Nat → Routine Memory (List Nat)
  | 0, _ => pure []
  | i + 1, dataBase => do
      let dataBase := dataBase - 4096
      if page i ≠ 0 then
        let placed ← putPage (page i) dataBase
        let rest ← placePages page i dataBase
        pure (placed :: rest)
      else
        placePages page i dataBase

/-- The pages of `change_ldt`; the descriptors are those of `codeSegment`. -/
def changeLdt
    (page : Nat → Nat)
    (codeBase : Nat) : Routine Memory (List Nat) :=
  let dataLimit := 0x4000000
  placePages page maxArgPages (codeBase + dataLimit)

/-- The memory of the caller, from the point of no return on. -/
def replaceMemory
    (segments : Segments)
    (page : Nat → Nat) : Routine Memory (List Nat) := do
  let _ ← freePageTables segments.codeBase segments.codeLimit
  let _ ← freePageTables segments.dataBase segments.dataLimit
  changeLdt page segments.codeBase

/-! ## How `do_execve` gets to the point of no return -/

/-- The kernel gives up its reference to a page with the call. -/
def PageCall.GivesUp : PageCall → Nat → Prop
  | .freePage page, other => page = other
  | .putPage page _, other => page = other
  | _, _ => False

/-- `do_execve` with its `page[]`. -/
structure Arguments where
  kernel : Kernel
  page : Nat → Nat

/-- What happens until then. -/
inductive ArgumentEvent where
  /-- `copy_strings` gets a page for a part of the arguments that has none. -/
  | get (i : Nat)
  /-- A call of `do_execve` or of another task, which runs while this one sleeps. -/
  | call (call : PageCall)

/-- `do_execve` gives none of its pages up, and nobody else knows them. -/
def ArgumentEvent.Step (extMemK : Nat) :
    ArgumentEvent → Arguments → Arguments → Prop
  | .get i, before, after =>
    i < maxArgPages ∧ before.page i = 0 ∧
      ∃ page memory,
        getFreePage before.kernel.memory = .ret page memory ∧
          after.page = Function.update before.page i page ∧
          after.kernel =
            if page = 0 then ⟨memory, before.kernel.held⟩
            else Kernel.keep page 1 ⟨memory, before.kernel.held⟩
  | .call made, before, after =>
    (pageMachine extMemK).Step before.kernel made after.kernel ∧
      after.page = before.page ∧
      ∀ i, i < maxArgPages → before.page i ≠ 0 → ¬ made.GivesUp (before.page i)

/-- The kernel holds the pages, and they are different ones. -/
structure ArgumentPages (held page : Nat → Nat) : Prop where
  isHeld :
    ∀ i, i < maxArgPages → page i ≠ 0 → 0 < held (page i)
  distinct :
    ∀ i, i < maxArgPages → ∀ j, j < maxArgPages → page i ≠ 0 → page i = page j → i = j

section Calls

variable {extMemK : Nat} {kernel after : Kernel} {call : PageCall}
variable {page other : Nat}

/-- A routine of `mm/memory.c` does nothing to the kernel's references. -/
theorem ends_onMemory
    {α : Type} {routine : Routine Memory α} {next : α → Routine Kernel Unit}
    (ends : ((Kernel.onMemory routine >>= next) kernel).EndsIn after) :
    after.held = kernel.held ∨
      ∃ value memory, (next value ⟨memory, kernel.held⟩).EndsIn after := by
  change (Routine.andThen (Kernel.onMemory routine) next kernel).EndsIn
    after at ends
  unfold Routine.andThen Kernel.onMemory zoom at ends
  cases ran : routine kernel.memory with
  | ret value memory =>
    simp only [ran] at ends
    exact Or.inr ⟨value, memory, ends⟩
  | abandon memory =>
    simp only [ran] at ends
    rcases ends with ⟨_, reached⟩ | reached
    · cases reached
    · cases reached
      exact Or.inl rfl
  | panic message =>
    simp only [ran] at ends
    rcases ends with ⟨_, reached⟩ | reached
    · cases reached
    · cases reached

/-- The same, where nothing comes after it. -/
theorem held_onMemory
    {routine : Routine Memory Unit}
    (ends : (Kernel.onMemory routine kernel).EndsIn after) :
    after.held = kernel.held := by
  unfold Kernel.onMemory zoom at ends
  cases ran : routine kernel.memory with
  | ret value memory =>
    simp only [ran] at ends
    rcases ends with ⟨_, reached⟩ | reached
    · cases reached
      rfl
    · cases reached
  | abandon memory =>
    simp only [ran] at ends
    rcases ends with ⟨_, reached⟩ | reached
    · cases reached
    · cases reached
      rfl
  | panic message =>
    simp only [ran] at ends
    rcases ends with ⟨_, reached⟩ | reached
    · cases reached
    · cases reached

theorem ends_update
    {change : Kernel → Kernel}
    (ends : ((update change : Routine Kernel Unit) kernel).EndsIn after) :
    after = change kernel := by
  rcases ends with ⟨_, reached⟩ | reached
  · cases reached
    rfl
  · cases reached

theorem ends_pure
    (ends : ((pure () : Routine Kernel Unit) kernel).EndsIn after) :
    after = kernel := by
  rcases ends with ⟨_, reached⟩ | reached
  · cases reached
    rfl
  · cases reached

/-- A page stays with the kernel unless a call gives it up. -/
theorem held_of_step
    (stepped : (pageMachine extMemK).Step kernel call after)
    (keeps : ¬ call.GivesUp page)
    (isHeld : 0 < kernel.held page) :
    0 < after.held page := by
  obtain ⟨_, ends⟩ := stepped.ends
  change (call.perform kernel).EndsIn after at ends
  have another (same : after.held = kernel.held) : 0 < after.held page := by
    rw [same]
    exact isHeld
  unfold PageCall.perform at ends
  cases call with
  | getFreePage =>
    rcases ends_onMemory ends with same | ⟨fresh, memory, ends⟩
    · exact another same
    · rw [ends_update ends]
      split_ifs
      · exact isHeld
      · unfold Kernel.keep
        dsimp only
        rw [Function.update_apply]
        split_ifs
        · exact Nat.one_pos
        · exact isHeld
  | freePage freed =>
    rcases ends_onMemory ends with same | ⟨fresh, memory, ends⟩
    · exact another same
    · rw [ends_update ends]
      unfold Kernel.keep
      dsimp only
      rw [Function.update_of_ne fun same => keeps same.symm]
      exact isHeld
  | putPage placed address =>
    rcases ends_onMemory ends with same | ⟨fresh, memory, ends⟩
    · exact another same
    · rw [ends_update ends]
      split_ifs
      · exact isHeld
      · unfold Kernel.keep
        dsimp only
        rw [Function.update_of_ne fun same => keeps same.symm]
        exact isHeld
  | fillPage filled contents =>
    exact another (held_onMemory ends)
  | getEmptyPage address =>
    exact another (held_onMemory ends)
  | userWrite task offset value =>
    exact another (held_onMemory ends)
  | unWpPage dir index =>
    exact another (held_onMemory ends)
  | copyMem segments parent child =>
    rcases ends_onMemory ends with same | ⟨fresh, memory, ends⟩
    · exact another same
    · rw [ends_pure ends]
      exact isHeld
  | freePageTables task size =>
    rcases ends_onMemory ends with same | ⟨fresh, memory, ends⟩
    · exact another same
    · rw [ends_pure ends]
      exact isHeld
  | tryToShare address task current =>
    rcases ends_onMemory ends with same | ⟨fresh, memory, ends⟩
    · exact another same
    · rw [ends_pure ends]
      exact isHeld

/-- The pages of `do_execve` stay with it. -/
theorem argumentPages_step
    {event : ArgumentEvent} {before last : Arguments}
    (stepped : event.Step extMemK before last)
    (accounted : before.kernel.Accounted extMemK)
    (pages : ArgumentPages before.kernel.held before.page) :
    last.kernel.Accounted extMemK ∧
      ArgumentPages last.kernel.held last.page := by
  cases event with
  | get i =>
    obtain ⟨inside, isNone, fresh, memory, gets, page, kernel⟩ := stepped
    have taken :
        getFreePage.Satisfies before.kernel.memory _ (fun _ => True) :=
      satisfies_getFreePage accounted
    rcases taken.of_ret gets with ⟨rfl, rfl, _⟩ | ⟨inMain, free, rfl⟩
    · rw [if_pos rfl] at kernel
      have same : Function.update before.page i 0 = before.page := by
        rw [← isNone, Function.update_eq_self]
      rw [same] at page
      rw [kernel, page]
      exact ⟨accounted, pages⟩
    · have notZero := Accounted.ne_zero_of_main accounted inMain
      rw [if_neg notZero] at kernel
      have refs := Accounted.free_refs accounted inMain free
      have another (j : Nat) (below : j < maxArgPages)
          (nonzero : before.page j ≠ 0) : before.page j ≠ fresh := by
        intro same
        have isHeld := pages.isHeld j below nonzero
        rw [same] at isHeld
        omega
      rw [kernel, page]
      refine ⟨Accounted.taken_accounted accounted inMain free, ?_, ?_⟩
      · intro j below nonzero
        unfold Kernel.keep
        dsimp only
        by_cases here : j = i
        · subst here
          rw [Function.update_self, Function.update_self]
          exact Nat.one_pos
        · rw [Function.update_of_ne here] at nonzero ⊢
          rw [Function.update_of_ne (another j below nonzero)]
          exact pages.isHeld j below nonzero
      · intro j below k small nonzero same
        by_cases here : j = i
        · by_cases there : k = i
          · rw [here, there]
          · subst here
            rw [Function.update_self, Function.update_of_ne there] at same
            rw [Function.update_self] at nonzero
            exact absurd same.symm (another k small (same ▸ nonzero))
        · rw [Function.update_of_ne here] at nonzero same
          by_cases there : k = i
          · subst there
            rw [Function.update_self] at same
            exact absurd same (another j below nonzero)
          · rw [Function.update_of_ne there] at same
            exact pages.distinct j below k small nonzero same
  | call call =>
    obtain ⟨moved, page, keeps⟩ := stepped
    refine ⟨moved.invariant (preserves_accounted extMemK) accounted, ?_, ?_⟩
    · intro i inside nonzero
      rw [page] at nonzero ⊢
      exact held_of_step moved (keeps i inside nonzero)
        (pages.isHeld i inside nonzero)
    · rw [page]
      exact pages.distinct

end Calls

/-! ## The loop of `change_ldt` -/

section Places

variable {memory : Memory} {page : Nat → Nat} {dir table : Nat}

/-- The results of `put_page` when it never fails. -/
def placed (page : Nat → Nat) : Nat → List Nat
  | 0 => []
  | i + 1 => if page i ≠ 0 then page i :: placed page i else placed page i

/-- The addresses of the argument pages. -/
theorem argument_address
    (place : Nat)
    (range : dir < 1024)
    (inside : place < 1024) :
    dirIndex (dir * 0x400000 + place * 4096) = dir ∧
      tableIndex (dir * 0x400000 + place * 4096) = place := by
  unfold dirIndex tableIndex
  omega

theorem putPage_present
    {address entry : Nat}
    (present : (memory.ram 0 (dirIndex address)).present = true) :
    putPage entry address memory =
      .ret entry
        (store (memory.ram 0 (dirIndex address)).frame (tableIndex address)
          (Word.userEntry entry) memory) := by
  have reads : (Routine.read : Routine Memory Memory) memory = .ret memory memory := rfl
  unfold putPage
  rw [bind_of_ret reads, if_pos present]
  rfl

/-- Where there is a page table, the pages are entered there. -/
theorem placePages_present
    {start n : Nat}
    (page : Nat → Nat)
    (range : dir < 1024)
    (inside : start + n ≤ 1024)
    (present : (memory.ram 0 dir).present = true)
    (points : (memory.ram 0 dir).frame = table)
    (notZero : table ≠ 0) :
    ∃ contents,
      placePages page n (dir * 0x400000 + (start + n) * 4096) memory =
          .ret (placed page n) (storePage table contents memory) ∧
        ∀ index,
          contents index =
            if start ≤ index ∧ index < start + n ∧ page (index - start) ≠ 0 then
              Word.userEntry (page (index - start))
            else
              memory.ram table index := by
  induction n generalizing memory with
  | zero =>
    refine ⟨memory.ram table, ?_, fun index => ?_⟩
    · unfold storePage
      rw [Function.update_eq_self]
      rfl
    · rw [if_neg (by omega)]
  | succ i inductionHypothesis =>
    have next : dir * 0x400000 + (start + (i + 1)) * 4096 - 4096 =
        dir * 0x400000 + (start + i) * 4096 := by
      omega
    unfold placePages placed
    dsimp only
    rw [next]
    by_cases isZero : page i = 0
    · rw [if_neg (not_not.mpr isZero), if_neg (not_not.mpr isZero)]
      obtain ⟨contents, places, words⟩ :=
        inductionHypothesis (by omega) present points
      refine ⟨contents, places, fun index => ?_⟩
      rw [words index]
      refine if_congr ?_ rfl rfl
      constructor
      · rintro ⟨lower, upper, isSome⟩
        exact ⟨lower, by omega, isSome⟩
      · rintro ⟨lower, upper, isSome⟩
        refine ⟨lower, ?_, isSome⟩
        by_contra last
        have same : index - start = i := by omega
        exact isSome (same ▸ isZero)
    · rw [if_pos isZero, if_pos isZero]
      obtain ⟨sameDir, sameIndex⟩ :=
        argument_address (start + i) range (by omega)
      have puts :
          putPage (page i) (dir * 0x400000 + (start + i) * 4096) memory =
            .ret (page i)
              (store table (start + i) (Word.userEntry (page i)) memory) := by
        rw [putPage_present (by rw [sameDir]; exact present), sameDir,
          sameIndex, points]
      have untouched :
          (store table (start + i) (Word.userEntry (page i)) memory).ram 0 =
            memory.ram 0 :=
        ram_store_of_ne (Ne.symm notZero)
      rw [← untouched] at present points
      obtain ⟨contents, places, words⟩ :=
        inductionHypothesis (by omega) present points
      rw [bind_of_ret puts, bind_of_ret places]
      refine ⟨contents, ?_, fun index => ?_⟩
      · unfold storePage store
        dsimp only
        rw [Function.update_idem]
        rfl
      · rw [words index, ram_store]
        by_cases last : index = start + i
        · have same : index - start = i := by omega
          rw [if_neg (by omega), if_pos ⟨rfl, last⟩,
            if_pos ⟨by omega, by omega, same.symm ▸ isZero⟩, same]
        · rw [if_neg (c := table = table ∧ index = start + i)
            (fun both => last both.2)]
          refine if_congr ?_ rfl rfl
          omega

/-- Without one, a page gets a fresh page table. -/
theorem putPage_absent
    {address : Nat} {fresh : Memory}
    (entry : Nat)
    (absent : (memory.ram 0 (dirIndex address)).present = false)
    (gets : getFreePage memory = .ret table fresh)
    (notZero : table ≠ 0)
    (small : table < 2 ^ 20) :
    putPage entry address memory =
      putPage entry address
        (store 0 (dirIndex address) (Word.userEntry table) fresh) := by
  have linked :
      (store 0 (dirIndex address) (Word.userEntry table) fresh).ram 0
        (dirIndex address) = Word.userEntry table := by
    rw [ram_store, if_pos ⟨rfl, rfl⟩]
  have present :
      ((store 0 (dirIndex address) (Word.userEntry table) fresh).ram 0
        (dirIndex address)).present = true := by
    rw [linked]
    exact Word.present_userEntry table
  have reads : (Routine.read : Routine Memory Memory) memory = .ret memory memory := rfl
  rw [putPage_present present, linked, Word.frame_userEntry small]
  unfold putPage
  rw [bind_of_ret reads, if_neg (by rw [absent]; exact Bool.false_ne_true),
    bind_of_ret gets, if_neg notZero]
  rfl

/-- Without one, the first page that there is gets a fresh page table. -/
theorem placePages_absent
    {start n : Nat} {fresh : Memory}
    (range : dir < 1024)
    (inside : start + n ≤ 1024)
    (absent : (memory.ram 0 dir).present = false)
    (gets : getFreePage memory = .ret table fresh)
    (notZero : table ≠ 0)
    (small : table < 2 ^ 20)
    (nonzero : ∃ i, i < n ∧ page i ≠ 0) :
    placePages page n (dir * 0x400000 + (start + n) * 4096) memory =
      placePages page n (dir * 0x400000 + (start + n) * 4096)
        (store 0 dir (Word.userEntry table) fresh) := by
  induction n with
  | zero =>
    obtain ⟨i, below, _⟩ := nonzero
    omega
  | succ n inductionHypothesis =>
    have next : dir * 0x400000 + (start + (n + 1)) * 4096 - 4096 =
        dir * 0x400000 + (start + n) * 4096 := by
      omega
    unfold placePages
    dsimp only
    rw [next]
    by_cases isZero : page n = 0
    · rw [if_neg (not_not.mpr isZero)]
      refine inductionHypothesis (by omega) ?_
      obtain ⟨i, below, nonzero⟩ := nonzero
      refine ⟨i, ?_, nonzero⟩
      by_contra last
      have same : i = n := by omega
      exact nonzero (same ▸ isZero)
    · rw [if_pos isZero]
      obtain ⟨sameDir, sameIndex⟩ :=
        argument_address (start + n) range (by omega)
      have puts :=
        putPage_absent (page n) (by rw [sameDir]; exact absent) gets notZero
          small
      rw [sameDir] at puts
      exact bind_congr_state puts

end Places

/-! ## The tables that have been freed -/

section Freed

variable {low high : Nat} {held : Nat → Nat} {memory after : Memory}
variable {first size page : Nat}

/-- A freed page is handed out again, or another one. -/
theorem getFreePage_of_free
    (accounted : Accounted low high held memory)
    (inMain : InMain low high page)
    (free : memory.memMap (page - lowMemPage) = 0#8) :
    ∃ table, getFreePage memory = .ret table (taken table memory) ∧
      InMain low high table ∧
        memory.memMap (table - lowMemPage) = 0#8 := by
  have gets : getFreePage.Satisfies memory _ fun _ => False :=
    satisfies_getFreePage accounted
  unfold Satisfies at gets
  cases outcome : getFreePage memory with
  | ret table fresh =>
    rw [outcome] at gets
    rcases gets with ⟨_, _, occupied⟩ | ⟨main, unused, rfl⟩
    · exact absurd free (occupied page inMain)
    · exact ⟨table, rfl, main, unused⟩
  | abandon fresh =>
    rw [outcome] at gets
    exact gets.elim
  | panic message =>
    rw [outcome] at gets
    exact gets.elim

/-- Entries are freed and none are made. -/
theorem Released.entryRefs_zero
    (released : Released low high held first size memory after)
    (unmapped : memory.entryRefs page = 0) :
    after.entryRefs page = 0 := by
  unfold entryRefs at *
  rw [occurrences_eq_zero_iff] at *
  intro slot member mapped
  refine unmapped slot member ?_
  have entry := released.entries slot member
  split_ifs at entry
  · rw [frameAt, entry] at mapped
    cases mapped
  · rwa [frameAt_congr entry] at mapped

/-- A page whose only references are directory entries of the range is free. -/
theorem Released.free
    (released : Released low high held first size memory after)
    (inMain : InMain low high page)
    (unmapped : memory.entryRefs page = 0)
    (unheld : held page = 0)
    (within : ∀ dir ∈ userDirs, memory.tableOf dir = some page →
      first ≤ dir ∧ dir < first + size) :
    after.memMap (page - lowMemPage) = 0#8 := by
  have untabled : after.tableRefs page = 0 := by
    unfold tableRefs
    rw [occurrences_eq_zero_iff]
    intro dir member pointsTo
    have table := released.tables dir member
    rw [pointsTo] at table
    split_ifs at table with inside
    exact inside (within dir member table.symm)
  have count := released.accounted.exact page inMain
  rw [released.entryRefs_zero unmapped, untabled, unheld] at count
  exact BitVec.eq_of_toNat_eq count

/-- How many page tables `free_page_tables` looks at. -/
def tables (limit : Nat) : Nat :=
  (limit + 0x3fffff) % 2 ^ 32 / 0x400000

theorem tables_le
    {limit : Nat}
    (small : limit ≤ slotSize) :
    tables limit ≤ 16 := by
  unfold slotSize at small
  unfold tables
  omega

/-- `free_page_tables` for a segment that ends in the page directory. -/
theorem satisfies_freeSegment
    {task limit : Nat} {abandoned : Memory → Prop}
    (accounted : Accounted low high held memory)
    (user : 0 < task)
    (range : task < 64)
    (inDirectory : task * 16 + tables limit ≤ 1024) :
    Satisfies (freePageTables (task * slotSize) limit) memory
      (fun _ after =>
        Released low high held (task * 16) (tables limit) memory after)
      abandoned := by
  have directory : dirIndex (task * slotSize) = task * 16 := by
    unfold dirIndex slotSize
    omega
  unfold freePageTables
  rw [if_neg (by unfold slotSize; omega), if_neg (by unfold slotSize; omega),
    directory]
  exact (satisfies_freeDirs accounted (by omega) inDirectory).mono
    (fun _ _ freed => freed.2) fun _ same => same

end Freed

/-! ## The pages in their places -/

section Entered

variable {low high : Nat} {held page : Nat → Nat} {memory : Memory}
variable {dir table : Nat} {contents : Page}

theorem placePages_none
    {n dataBase : Nat}
    (isZero : ∀ i, i < n → page i = 0) :
    placePages page n dataBase memory = .ret (placed page n) memory := by
  induction n generalizing dataBase with
  | zero =>
    rfl
  | succ n inductionHypothesis =>
    unfold placePages placed
    dsimp only
    rw [if_neg (not_not.mpr (isZero n (by omega))),
      if_neg (not_not.mpr (isZero n (by omega)))]
    exact inductionHypothesis fun i below => isZero i (by omega)

/-- No call fails. -/
theorem placed_ne_zero (n : Nat) : 0 ∉ placed page n := by
  induction n with
  | zero =>
    exact List.not_mem_nil
  | succ n inductionHypothesis =>
    unfold placed
    split_ifs with isSome
    · rw [List.mem_cons, not_or]
      exact ⟨Ne.symm isSome, inductionHypothesis⟩
    · exact inductionHypothesis

/-- In a page table that has the argument pages each of them is mapped once. -/
theorem frameAt_entered
    {start i : Nat} {slot : Nat × Nat}
    (accounted : Accounted low high held memory)
    (pages : ArgumentPages held page)
    (dirMember : dir ∈ userDirs)
    (pointsTo : memory.tableOf dir = some table)
    (words :
      ∀ index,
        contents index =
          if start ≤ index ∧ index < start + maxArgPages ∧
              page (index - start) ≠ 0 then
            Word.userEntry (page (index - start))
          else
            memory.ram table index)
    (inside : i < maxArgPages)
    (nonzero : page i ≠ 0)
    (member : slot ∈ userEntries) :
    (storePage table contents memory).frameAt slot = some (page i) ↔
      slot = (dir, start + i) := by
  have notZero := accounted.table_ne_zero dirMember pointsTo
  have isHeld := pages.isHeld i inside nonzero
  have unmapped := (accounted.held_refs isHeld).1
  have frame (j : Nat) (below : j < maxArgPages) (used : page j ≠ 0) :
      (Word.userEntry (page j)).frame = page j :=
    Word.frame_userEntry
      (accounted.page_lt (accounted.heldMain _ (pages.isHeld j below used)))
  have tablesSame (other : Nat) :
      (storePage table contents memory).tableOf other =
        memory.tableOf other := by
    apply tableOf_congr
    rw [ram_storePage, if_neg (Ne.symm notZero)]
  have stays (same : (storePage table contents memory).entryAt slot =
      memory.entryAt slot) :
      (storePage table contents memory).frameAt slot ≠ some (page i) := by
    rw [frameAt_congr same]
    exact occurrences_eq_zero_iff.mp unmapped slot member
  obtain ⟨slotDir, index⟩ := slot
  by_cases here : slotDir = dir
  · subst here
    have entry : (storePage table contents memory).entryAt (slotDir, index) =
        entryOf (contents index) := by
      rw [entryAt_of_table ((tablesSame slotDir).trans pointsTo), ram_storePage,
        if_pos rfl]
    by_cases entered : start ≤ index ∧ index < start + maxArgPages ∧
        page (index - start) ≠ 0
    · have maps : (storePage table contents memory).frameAt (slotDir, index) =
          some (page (index - start)) := by
        rw [words index, if_pos entered,
          entryOf_of_present (Word.present_userEntry _)] at entry
        rw [frameAt_of_entry entry, frame _ (by omega) entered.2.2]
      rw [maps, Option.some.injEq, Prod.mk.injEq]
      constructor
      · intro same
        have place := pages.distinct _ (by omega) i inside entered.2.2 same
        exact ⟨rfl, by omega⟩
      · rintro ⟨_, rfl⟩
        rw [Nat.add_sub_cancel_left]
    · have same : (storePage table contents memory).entryAt (slotDir, index) =
          memory.entryAt (slotDir, index) := by
        rw [entry, words index, if_neg entered, entryAt_of_table pointsTo]
      refine iff_of_false (stays same) ?_
      rw [Prod.mk.injEq]
      rintro ⟨_, rfl⟩
      refine entered ⟨by omega, by omega, ?_⟩
      rw [Nat.add_sub_cancel_left]
      exact nonzero
  · have same : (storePage table contents memory).entryAt (slotDir, index) =
        memory.entryAt (slotDir, index) := by
      refine entryAt_congr (tablesSame slotDir) fun other otherPoints => ?_
      rw [ram_storePage, if_neg]
      rintro rfl
      exact here (accounted.table_injective (Accounted.slotDir member)
        dirMember otherPoints pointsTo)
    refine iff_of_false (stays same) fun there => here ?_
    rw [Prod.mk.injEq] at there
    exact there.1

end Entered

section Replaced

variable {extMemK task : Nat} {kernel : Kernel} {state : Arguments}
variable {events : List ArgumentEvent} {segments : Segments}

/-- The counts are exact, and the pages are with the kernel. -/
def Arguments.Sound (extMemK : Nat) (state : Arguments) : Prop :=
  state.kernel.Accounted extMemK ∧ ArgumentPages state.kernel.held state.page

theorem argumentPages_run
    (reached : (pageMachine extMemK).Reachable kernel)
    (run : Traces (ArgumentEvent.Step extMemK) events ⟨kernel, fun _ => 0⟩ state) :
    state.Sound extMemK := by
  have accounted : kernel.Accounted extMemK :=
    reached.invariant (fun _ => initial_accounted)
      (preserves_accounted extMemK)
  have keeps (event : ArgumentEvent) (before after : Arguments)
      (sound : before.Sound extMemK)
      (stepped : event.Step extMemK before after) :
      after.Sound extMemK :=
    argumentPages_step stepped sound.1 sound.2
  refine run.invariant keeps ⟨accounted, ?_, ?_⟩
  · exact fun _ _ isSome => absurd rfl isSome
  · exact fun _ _ _ _ isSome => absurd rfl isSome

/-- The loop of `change_ldt`, with a free page if it needs one. -/
theorem placePages_placed
    {low high dir start : Nat} {held page : Nat → Nat} {memory : Memory}
    (accounted : Accounted low high held memory)
    (pages : ArgumentPages held page)
    (dirMember : dir ∈ userDirs)
    (fits : start + maxArgPages ≤ 1024)
    (room :
      memory.tableOf dir = none →
        ∃ free, InMain low high free ∧ memory.memMap (free - lowMemPage) = 0#8) :
    ∃ after,
      placePages page maxArgPages
          (dir * 0x400000 + (start + maxArgPages) * 4096) memory =
          .ret (placed page maxArgPages) after ∧
        ∀ i, i < maxArgPages → page i ≠ 0 → ∀ slot ∈ userEntries,
          after.frameAt slot = some (page i) ↔ slot = (dir, start + i) := by
  have below : dir < 1024 := (mem_userDirs.mp dirMember).2
  -- From here on there is a page table, or there is no page to enter.
  have enter {middle : Memory} {table : Nat}
      (accounted : Accounted low high held middle)
      (pointsTo : middle.tableOf dir = some table) :
      ∃ after,
        placePages page maxArgPages
            (dir * 0x400000 + (start + maxArgPages) * 4096) middle =
          .ret (placed page maxArgPages) after ∧
        ∀ i, i < maxArgPages → page i ≠ 0 → ∀ slot ∈ userEntries,
          after.frameAt slot = some (page i) ↔ slot = (dir, start + i) := by
    have notZero := accounted.table_ne_zero dirMember pointsTo
    have entry := pointsTo
    rw [tableOf, Option.map_eq_some_iff] at entry
    obtain ⟨word, isEntry, frame⟩ := entry
    obtain ⟨present, same⟩ := entryOf_eq_some.mp isEntry
    obtain ⟨contents, places, words⟩ :=
      placePages_present page below fits present (same ▸ frame)
        notZero
    exact ⟨_, places, fun i inside isSome slot member =>
      frameAt_entered accounted pages dirMember pointsTo words inside isSome
        member⟩
  cases pointsTo : memory.tableOf dir with
  | some table =>
    exact enter accounted pointsTo
  | none =>
    by_cases isZero : ∀ i, i < maxArgPages → page i = 0
    · exact ⟨memory, placePages_none isZero, fun i inside isSome =>
        absurd (isZero i inside) isSome⟩
    · push Not at isZero
      obtain ⟨free, inMain, unused⟩ := room pointsTo
      obtain ⟨table, gets, tableMain, tableFree⟩ :=
        getFreePage_of_free accounted inMain unused
      have linked := linked_of_taken accounted dirMember pointsTo tableMain
        tableFree
      have absent : (memory.ram 0 dir).present = false := by
        rw [tableOf, Option.map_eq_none_iff] at pointsTo
        exact entryOf_eq_none.mp pointsTo
      rw [placePages_absent below fits absent gets
        (accounted.ne_zero_of_main tableMain) (accounted.page_lt tableMain)
        isZero]
      exact enter linked.accounted linked.table

theorem changeLdt_eq
    {page : Nat → Nat} :
    changeLdt page (task * slotSize) =
      placePages page maxArgPages
        ((task * 16 + 15) * 0x400000 + (992 + maxArgPages) * 4096) := by
  have top : task * slotSize + 0x4000000 =
      (task * 16 + 15) * 0x400000 + (992 + maxArgPages) * 4096 := by
    unfold slotSize maxArgPages
    omega
  rw [← top]
  rfl

/--
At the point of no return the caller has a page table: then no `put_page` of
`change_ldt` fails, and each argument page is mapped in its place and nowhere else.
-/
theorem arguments_placed
    (reached : (pageMachine extMemK).Reachable kernel)
    (run : Traces (ArgumentEvent.Step extMemK) events ⟨kernel, fun _ => 0⟩ state)
    (user : 0 < task)
    (range : task < 64)
    (codeBase : segments.codeBase = task * slotSize)
    (dataBase : segments.dataBase = task * slotSize)
    (codeLimit : task * 16 + tables segments.codeLimit ≤ 1024)
    (dataLimit : segments.dataLimit ≤ slotSize)
    (owned :
      ∃ dir, task * 16 ≤ dir ∧ dir < task * 16 + 16 ∧
        (dir < task * 16 + tables segments.codeLimit ∨
          dir < task * 16 + tables segments.dataLimit) ∧
        state.kernel.memory.tableOf dir ≠ none) :
    ∃ after,
      replaceMemory segments state.page state.kernel.memory =
          .ret (placed state.page maxArgPages) after ∧
        0 ∉ placed state.page maxArgPages ∧
        ∀ i, i < maxArgPages → state.page i ≠ 0 → ∀ slot ∈ userEntries,
          after.frameAt slot = some (state.page i) ↔
            slot = slotOf task (0x4000000 - 0x20000 + i * 4096) := by
  obtain ⟨accounted, pages⟩ := argumentPages_run reached run
  obtain ⟨dir, lower, upper, freed, isSome⟩ := owned
  obtain ⟨table, pointsTo⟩ := Option.ne_none_iff_exists'.mp isSome
  have dirMember : dir ∈ userDirs := by
    rw [mem_userDirs]
    omega
  have dataTables := tables_le dataLimit
  have refs := Accounted.table_refs accounted dirMember pointsTo
  have inMain := Memory.Accounted.tableMain accounted dir dirMember table pointsTo
  obtain ⟨_, first, firstFrees, firstReleased⟩ :=
    (satisfies_freeSegment accounted user range codeLimit).returns
  obtain ⟨_, second, secondFrees, secondReleased⟩ :=
    (satisfies_freeSegment firstReleased.accounted user range
      (by omega : task * 16 + tables segments.dataLimit ≤ 1024)).returns
  -- The page table is free then, whichever of the two calls has freed it.
  have free : second.memMap (table - lowMemPage) = 0#8 := by
    refine secondReleased.free inMain (firstReleased.entryRefs_zero refs.1)
      refs.2.2 fun other otherMember otherPoints => ?_
    have entry := firstReleased.tables other otherMember
    rw [otherPoints] at entry
    split_ifs at entry with inCode
    have same := Accounted.table_injective accounted otherMember dirMember
      entry.symm pointsTo
    omega
  have last : task * 16 + 15 ∈ userDirs := by
    rw [mem_userDirs]
    omega
  have fits : 992 + maxArgPages ≤ 1024 := by
    decide
  obtain ⟨after, places, maps⟩ :=
    placePages_placed secondReleased.accounted pages last fits
      fun _ => ⟨table, inMain, free⟩
  refine ⟨after, ?_, placed_ne_zero _, fun i inside isSome slot member => ?_⟩
  · unfold replaceMemory
    rw [codeBase, dataBase, bind_of_ret firstFrees, bind_of_ret secondFrees,
      changeLdt_eq]
    exact places
  · have place : slotOf task (0x4000000 - 0x20000 + i * 4096) =
        (task * 16 + 15, 992 + i) := by
      unfold maxArgPages at inside
      unfold slotOf dirIndex tableIndex
      refine Prod.ext ?_ ?_
      · simp only
        omega
      · simp only
        omega
    rw [place]
    exact maps i inside isSome slot member

end Replaced

/-! ## A program of the first task -/

/-- The first task with a page, and a page for the arguments. -/
def firstPages : Bool :=
  (getEmptyPage (1 * slotSize) swapper.memory).passes fun _ memory =>
    (getFreePage memory).passes fun page fresh =>
      page != 0 && (fresh.tableOf 16).isSome

theorem firstPages_passes : firstPages = true := by
  decide +kernel

/-- The segments of the first task, with 640 kB each. -/
def firstSegments : Segments where
  codeBase := 1 * slotSize
  dataBase := 1 * slotSize
  codeLimit := 0xA0000
  dataLimit := 0xA0000

theorem arguments_placed_first :
    ∃ kernel state after,
      (pageMachine 15360).Reachable kernel ∧
        Traces (ArgumentEvent.Step 15360) [.get 31] ⟨kernel, fun _ => 0⟩ state ∧
        state.page 31 ≠ 0 ∧
        replaceMemory firstSegments state.page state.kernel.memory =
          .ret (placed state.page maxArgPages) after ∧
        after.frameAt (slotOf 1 0x3fff000) = some (state.page 31) := by
  have passes := firstPages_passes
  unfold firstPages at passes
  rw [Outcome.passes_iff] at passes
  obtain ⟨_, memory, loads, passes⟩ := passes
  rw [Outcome.passes_iff] at passes
  obtain ⟨page, fresh, gets, passes⟩ := passes
  rw [Bool.and_eq_true, bne_iff_ne] at passes
  obtain ⟨notZero, table⟩ := passes
  have member : (dirIndex (1 * slotSize), tableIndex (1 * slotSize)) ∈
      userEntries :=
    mem_userEntries.mpr (by decide)
  have enabled : (PageCall.getEmptyPage (1 * slotSize)).Enabled swapper :=
    ⟨member, entryAt_booted _ _ member⟩
  have performs : (PageCall.getEmptyPage (1 * slotSize)).perform swapper =
      .ret () ⟨memory, swapper.held⟩ := by
    change Kernel.onMemory (getEmptyPage (1 * slotSize)) swapper = _
    unfold Kernel.onMemory zoom
    rw [loads]
  have reached : (pageMachine 15360).Reachable ⟨memory, swapper.held⟩ :=
    reachable_call swapper_reachable enabled performs
  have run :
      Traces (ArgumentEvent.Step 15360) [.get 31]
        ⟨⟨memory, swapper.held⟩, fun _ => 0⟩
        ⟨Kernel.keep page 1 ⟨fresh, swapper.held⟩,
          Function.update (fun _ => 0) 31 page⟩ :=
    .next ⟨by decide, rfl, page, fresh, gets, rfl, (if_neg notZero).symm⟩
      (.done _)
  have owned :
      ∃ dir, 1 * 16 ≤ dir ∧ dir < 1 * 16 + 16 ∧
        (dir < 1 * 16 + tables firstSegments.codeLimit ∨
          dir < 1 * 16 + tables firstSegments.dataLimit) ∧
        fresh.tableOf dir ≠ none :=
    ⟨16, by decide, by decide, Or.inl (by decide),
      Option.isSome_iff_ne_none.mp table⟩
  have nonzero : Function.update (fun _ : Nat => 0) 31 page 31 ≠ 0 := by
    rw [Function.update_self]
    exact notZero
  obtain ⟨after, replaces, _, maps⟩ :=
    arguments_placed reached run (by decide) (by decide) rfl rfl (by decide)
      (by decide) owned
  exact ⟨_, _, after, reached, run, nonzero, replaces,
    (maps 31 (by decide) nonzero (slotOf 1 0x3fff000)
      (slotOf_mem (by decide) (by decide) (by decide))).mpr rfl⟩

end Memory

end HitOs
