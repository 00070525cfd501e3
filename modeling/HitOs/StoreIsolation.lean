import HitOs.SystemCalls

namespace HitOs

/-!
# Which system calls keep out of shared pages

A fork leaves its pages shared and write-protected, and a store in supervisor
mode ignores the protection.  A call that stores into user memory keeps the other
tasks' bytes when it has unshared the range with `verify_area`; `sys_whoami` and
`sys_pipe` do not.
-/

namespace Memory

open Routine

variable {low high : Nat} {held : Nat → Nat} {memory after : Memory}

/-! ## Shared pages -/

/-- The page at an address is shared copy-on-write, through this entry. -/
structure SharedThrough
    (memory : Memory)
    (task offset : Nat)
    (entry : Word) : Prop where
  mapped :
    memory.entryAt (slotOf task offset) = some entry
  readOnly :
    entry.writable = false
  above :
    lowMemPage ≤ entry.frame
  counted :
    1 < (memory.memMap (entry.frame - lowMemPage)).toNat

/-- A shared page is mapped by another task at the same address. -/
theorem SharedThrough.sharer
    (accounted : Accounted low high held memory)
    {task offset : Nat} {entry : Word}
    (taskUser : 0 < task)
    (taskRange : task < 64)
    (inSlot : offset < slotSize)
    (shared : SharedThrough memory task offset entry) :
    ∃ other, 0 < other ∧ other < 64 ∧ other ≠ task ∧
      memory.frameAt (slotOf other offset) = some entry.frame := by
  have member := slotOf_mem taskUser taskRange inSlot
  have maps := frameAt_of_entry shared.mapped
  have inMain :=
    (accounted.entryMain _ member _ maps).resolve_left
      (Nat.not_lt.mpr shared.above)
  have exact := accounted.exact _ inMain
  have single := accounted.mapped_refs member maps
  have counted := shared.counted
  have twice : 1 < memory.entryRefs entry.frame := by
    omega
  obtain ⟨⟨dir, index⟩, otherMember, different, otherMaps⟩ :=
    exists_other_of_one_lt twice (slotOf task offset)
  have offsets :=
    accounted.aligned _ otherMember _ member _ otherMaps maps shared.above
  rw [mem_userEntries] at otherMember
  have sameSlot : slotOf (dir / 16) offset = (dir, index) := by
    unfold slotSize at inSlot
    unfold slotOf dirIndex tableIndex at offsets ⊢
    simp only at offsets
    refine Prod.ext ?_ ?_
    · simp only
      omega
    · simp only
      omega
  refine ⟨dir / 16, by omega, by omega, ?_, ?_⟩
  · rintro rfl
    exact different sameSlot.symm
  · rw [sameSlot]
    exact otherMaps

/-! ## Verified stores -/

/-- The pages of a stretch of addresses are present, in main memory. -/
def AreaMapped
    (low high : Nat)
    (memory : Memory)
    (task offset size : Nat) : Prop :=
  ∀ position, offset ≤ position → position < offset + size →
    Mapped low high memory task position

section Area

variable {task offset size : Nat}

/-- After `verify_area` every address of the range has a writable page. -/
theorem AreaVerified.writable_at
    (taskUser : 0 < task)
    (taskRange : task < 64)
    (inSlot : offset + size ≤ slotSize)
    (mapped : AreaMapped low high memory task offset size)
    (verified :
      AreaVerified low high held task (offset / 4096)
        ((size + offset % 4096 + 4095) / 4096) memory after)
    {position : Nat}
    (lower : offset ≤ position)
    (upper : position < offset + size) :
    ∃ entry, after.entryAt (slotOf task position) = some entry ∧
      entry.writable = true ∧ InMain low high entry.frame := by
  have atSlot : position < slotSize := by
    omega
  have member := slotOf_mem taskUser taskRange atSlot
  obtain ⟨old, oldShape, _⟩ := mapped position lower upper
  have present := verified.present _ member
  rw [oldShape] at present
  have isPresent : after.entryAt (slotOf task position) ≠ none :=
    fun absent => Option.some_ne_none old (present.mp absent)
  obtain ⟨entry, entryShape⟩ := Option.ne_none_iff_exists'.mp isPresent
  have pageInSlot : position / 4096 * 4096 < slotSize := by
    omega
  have samePage : slotOf task (position / 4096 * 4096) = slotOf task position :=
    (slotOf_eq_iff pageInSlot atSlot).mpr ⟨rfl, by omega⟩
  have isWritable :=
    verified.writable (position / 4096) (by omega) (by omega) entry
      (by rw [samePage]; exact entryShape)
  have single :=
    verified.accounted.writableSingle _ member entry entryShape isWritable
  refine ⟨entry, entryShape, isWritable, ?_⟩
  exact (verified.accounted.entryMain _ member _
    (frameAt_of_entry entryShape)).resolve_left
      (Nat.not_lt.mpr single.1)

theorem AreaVerified.areaMapped
    (taskUser : 0 < task)
    (taskRange : task < 64)
    (inSlot : offset + size ≤ slotSize)
    (mapped : AreaMapped low high memory task offset size)
    (verified :
      AreaVerified low high held task (offset / 4096)
        ((size + offset % 4096 + 4095) / 4096) memory after) :
    AreaMapped low high after task offset size := by
  intro position lower upper
  obtain ⟨entry, entryShape, _, inMain⟩ :=
    verified.writable_at taskUser taskRange inSlot mapped lower upper
  exact ⟨entry, entryShape, inMain⟩

/-- The shared page has been left behind for a copy. -/
theorem AreaVerified.moved
    (accounted : Accounted low high held memory)
    (taskUser : 0 < task)
    (taskRange : task < 64)
    (inSlot : offset + size ≤ slotSize)
    (mapped : AreaMapped low high memory task offset size)
    (verified :
      AreaVerified low high held task (offset / 4096)
        ((size + offset % 4096 + 4095) / 4096) memory after)
    {position : Nat} {old : Word}
    (lower : offset ≤ position)
    (upper : position < offset + size)
    (shared : SharedThrough memory task position old) :
    after.frameAt (slotOf task position) ≠ some old.frame := by
  have atSlot : position < slotSize := by
    omega
  obtain ⟨entry, entryShape, isWritable, _⟩ :=
    verified.writable_at taskUser taskRange inSlot mapped lower upper
  obtain ⟨other, otherUser, otherRange, different, otherMaps⟩ :=
    shared.sharer accounted taskUser taskRange atSlot
  have member := slotOf_mem taskUser taskRange atSlot
  have otherMember := slotOf_mem otherUser otherRange atSlot
  have untouched :
      after.frameAt (slotOf other position) = some old.frame := by
    rw [← otherMaps]
    apply frameAt_congr
    apply verified.others _ otherMember
    intro page _ pageUpper same
    have pageInSlot : page * 4096 < slotSize := by
      unfold slotSize at inSlot ⊢
      omega
    exact different ((slotOf_eq_iff atSlot pageInSlot).mp same).1
  have notSame : slotOf other position ≠ slotOf task position := by
    intro same
    exact different ((slotOf_eq_iff atSlot atSlot).mp same).1
  intro same
  rw [frameAt_of_entry entryShape] at same
  rw [← same] at untouched
  exact verified.accounted.frameAt_ne_writable member otherMember notSame
    entryShape isWritable untouched

end Area

/-! ## What the calls store, and where -/

namespace SystemCall

/-- What `sys_whoami` stores: nothing, or the name up to its NUL. -/
def whoamiBytes (message : Message) (size : Nat) : List Byte :=
  if size < message.text.length then []
  else (message.text ++ [0#8]).take size

/-- What `sys_pipe` stores: two descriptors, or nothing when it fails. -/
def pipeBytes (files : FileTables) (memory : Memory) : List Byte :=
  match pipeSlots files with
  | none => []
  | some (_, fds) =>
    if scanMemMap memory.memMap pagingPages = none then []
    else
      longBytes (BitVec.ofNat 32 fds.1) ++ longBytes (BitVec.ofNat 32 fds.2)

/-- The address and the length of the stretch that a call stores into. -/
def area : SystemCall → Nat × Nat
  | whoami message name size => (name, (whoamiBytes message size).length)
  | pipe _ _ fildes => (fildes, 8)
  | time _ tloc => (tloc, if tloc = 0 then 0 else 4)
  | uname name => (name, if name = 0 then 0 else thisname.length)
  | cpStat _ _ statbuf => (statbuf, statSize)
  | waitpid _ _ arguments => (arguments.statAddr, 4)

/-- What a call stores without having verified the stretch. -/
def unverified : SystemCall → Memory → List Byte
  | whoami message _ size, _ => whoamiBytes message size
  | pipe files _ _, memory => pipeBytes files memory
  | _, _ => []

/--
No step of the call changes a byte of a page that was shared when the call was
made, as the other tasks that map the page read it.
-/
def Isolates
    (extMemK : Nat)
    (noPage : Nat → Routine Memory Unit)
    (task : Nat)
    (start : Kernel)
    (call : SystemCall) : Prop :=
  ∀ before after,
    OwnStep extMemK noPage task start call before after →
    ∀ position entry,
      call.area.1 ≤ position → position < call.area.1 + call.area.2 →
      SharedThrough start.memory task position entry →
      ∀ other, 0 < other → other < 64 → other ≠ task →
        before.frameAt (slotOf other position) = some entry.frame →
        ∀ offset, offset < slotSize → offset / 4096 = position / 4096 →
          after.view other offset = before.view other offset

/-- Every byte stored unverified into a shared page is there already. -/
def Harmless
    (task : Nat)
    (memory : Memory)
    (call : SystemCall) : Prop :=
  ∀ i value entry,
    (call.unverified memory)[i]? = some value →
    SharedThrough memory task (call.area.1 + i) entry →
      memory.view task (call.area.1 + i) = some value

end SystemCall

/-! ## Stores without verification -/

section Unverified

variable {task offset : Nat} {values : List Byte}

/-- Unverified stores keep the sharers' bytes when they change nothing. -/
theorem BytesStored.isolates
    {size : Nat}
    (inSlot : offset + size ≤ slotSize)
    (stored : BytesStored low high held task offset values memory after)
    (harmless :
      ∀ i value entry, values[i]? = some value →
        SharedThrough memory task (offset + i) entry →
          memory.view task (offset + i) = some value)
    {offsetAt : Nat} {entry : Word}
    (upper : offsetAt < offset + size)
    (shared : SharedThrough memory task offsetAt entry)
    {other seenAt : Nat}
    (otherUser : 0 < other)
    (otherRange : other < 64)
    (maps : memory.frameAt (slotOf other offsetAt) = some entry.frame)
    (seenInSlot : seenAt < slotSize)
    (samePage : seenAt / 4096 = offsetAt / 4096) :
    after.view other seenAt = memory.view other seenAt := by
  have atSlot : offsetAt < slotSize := by
    omega
  have taskSlot : slotOf task seenAt = slotOf task offsetAt :=
    (slotOf_eq_iff seenInSlot atSlot).mpr ⟨rfl, samePage⟩
  have otherSlot : slotOf other seenAt = slotOf other offsetAt :=
    (slotOf_eq_iff seenInSlot atSlot).mpr ⟨rfl, samePage⟩
  have seen := stored.views other seenAt otherUser otherRange seenInSlot
  rw [seen]
  cases found : storedAt offset values seenAt with
  | none =>
    rfl
  | some value =>
    simp only
    split
    · unfold storedAt at found
      split at found
      · cases found
      · rename_i notBelow
        have position : offset + (seenAt - offset) = seenAt := by
          omega
        have sharedHere : SharedThrough memory task seenAt entry := by
          refine ⟨?_, shared.readOnly, shared.above, shared.counted⟩
          rw [taskSlot]
          exact shared.mapped
        have before :=
          harmless (seenAt - offset) value entry found
            (by rw [position]; exact sharedHere)
        rw [position] at before
        rw [← before]
        unfold view
        rw [taskSlot, otherSlot, maps, frameAt_of_entry shared.mapped]
    · rfl

/-- Unverified stores that keep the sharers' bytes changed nothing. -/
theorem BytesStored.harmless
    (accounted : Accounted low high held memory)
    {held' : Nat → Nat}
    (taskUser : 0 < task)
    (taskRange : task < 64)
    (inSlot : offset + values.length ≤ slotSize)
    (stored : BytesStored low high held' task offset values memory after)
    (kept :
      ∀ offsetAt entry, offset ≤ offsetAt → offsetAt < offset + values.length →
        SharedThrough memory task offsetAt entry →
        ∀ other, 0 < other → other < 64 → other ≠ task →
          memory.frameAt (slotOf other offsetAt) = some entry.frame →
            after.view other offsetAt = memory.view other offsetAt)
    {i : Nat} {value : Byte} {entry : Word}
    (found : values[i]? = some value)
    (shared : SharedThrough memory task (offset + i) entry) :
    memory.view task (offset + i) = some value := by
  have inRange : i < values.length := by
    by_contra outside
    rw [List.getElem?_eq_none (by omega)] at found
    cases found
  have atSlot : offset + i < slotSize := by
    omega
  obtain ⟨other, otherUser, otherRange, different, maps⟩ :=
    shared.sharer accounted taskUser taskRange atSlot
  have unchanged :=
    kept (offset + i) entry (by omega) (by omega) shared other otherUser
      otherRange different maps
  have seen :=
    stored.views other (offset + i) otherUser otherRange atSlot
  have position : storedAt offset values (offset + i) = some value := by
    unfold storedAt
    rw [if_neg (by omega), Nat.add_sub_cancel_left]
    exact found
  have sameFrame := maps.trans (frameAt_of_entry shared.mapped).symm
  rw [position] at seen
  simp only [sameFrame, if_true] at seen
  have sameView :
      memory.view task (offset + i) = memory.view other (offset + i) := by
    unfold view
    rw [sameFrame]
  rw [sameView, ← unchanged, seen]

/-- What follows from stores in either direction, as one equivalence. -/
theorem BytesStored.isolates_iff
    (accounted : Accounted low high held memory)
    {held' : Nat → Nat} {size : Nat}
    (fits : values.length ≤ size)
    (taskUser : 0 < task)
    (taskRange : task < 64)
    (inSlot : offset + size ≤ slotSize)
    (stored :
      BytesStored low high held' task offset values memory after) :
    (∀ position entry, offset ≤ position → position < offset + size →
        SharedThrough memory task position entry →
        ∀ other, 0 < other → other < 64 → other ≠ task →
          memory.frameAt (slotOf other position) = some entry.frame →
          ∀ seenAt, seenAt < slotSize → seenAt / 4096 = position / 4096 →
            after.view other seenAt = memory.view other seenAt) ↔
      ∀ i value entry, values[i]? = some value →
        SharedThrough memory task (offset + i) entry →
          memory.view task (offset + i) = some value := by
  constructor
  · intro isolates i value entry found shared
    refine stored.harmless accounted taskUser taskRange (by omega) ?_
      found shared
    intro position other lower upper sharedAt sharer sharerUser sharerRange
      different maps
    exact isolates position other lower (by omega) sharedAt sharer sharerUser
      sharerRange different maps position (by omega) rfl
  · intro harmless position entry _ upper shared other otherUser otherRange _
      maps seenAt seenInSlot samePage
    exact stored.isolates inSlot harmless upper shared otherUser
      otherRange maps seenInSlot samePage

end Unverified

/-! ## The two calls that do not verify -/

section Unverifying

variable {noPage : Nat → Routine Memory Unit} {task : Nat}

/-- The loop of `sys_whoami` stores the rest of the name and its NUL. -/
theorem whoamiLoop_eq
    (noPage : Nat → Routine Memory Unit)
    (task : Nat)
    (message : Message)
    (name remaining i : Nat)
    (inText : i ≤ message.text.length) :
    ∃ result : Int,
      whoamiLoop noPage task message name remaining i =
        (do
          putFsBytes noPage task (name + i)
            (((message.text ++ [0#8]).drop i).take remaining)
          pure result) := by
  induction remaining generalizing i with
  | zero =>
    exact ⟨i, rfl⟩
  | succ remaining inductionHypothesis =>
    rcases Nat.lt_or_eq_of_le inText with inside | atEnd
    · have here : message.at i = message.text[i] := by
        unfold Message.at
        rw [List.getD_eq_getElem?_getD,
          List.getElem?_eq_getElem inside, Option.getD_some]
      have notNul : message.at i ≠ 0#8 := by
        rw [here]
        intro nul
        exact message.noNul (nul ▸ List.getElem_mem inside)
      have rest :
          (message.text ++ [0#8]).drop i =
            message.at i :: (message.text ++ [0#8]).drop (i + 1) := by
        rw [List.drop_eq_getElem_cons (by simp; omega), here,
          List.getElem_append_left inside]
      obtain ⟨result, later⟩ := inductionHypothesis (i + 1) inside
      refine ⟨result, ?_⟩
      rw [whoamiLoop, rest, List.take_succ_cons, putFsBytes, bind_assoc]
      congr 1
      funext _
      rw [if_neg notNul, later, Nat.add_assoc]
    · have nul : message.at i = 0#8 := by
        unfold Message.at
        rw [List.getD_eq_getElem?_getD, List.getElem?_eq_none (Nat.le_of_eq atEnd.symm)]
        rfl
      have rest : (message.text ++ [0#8]).drop i = [0#8] := by
        rw [atEnd, List.drop_left]
      refine ⟨i, ?_⟩
      rw [whoamiLoop, rest, List.take_succ_cons, List.take_nil,
        putFsBytes, putFsBytes, bind_assoc]
      congr 1
      · rw [nul]
      · funext _
        rw [if_pos nul]
        rfl

theorem satisfies_sysWhoami
    (accounted : Accounted low high held memory)
    {message : Message} {name size : Nat}
    (taskUser : 0 < task)
    (taskRange : task < 64)
    (inSlot :
      name + (SystemCall.whoamiBytes message size).length ≤ slotSize)
    (mapped :
      AreaMapped low high memory task name
        (SystemCall.whoamiBytes message size).length) :
    Satisfies (sysWhoami noPage task message name size) memory
      (fun _ after =>
        BytesStored low high held task name
          (SystemCall.whoamiBytes message size) memory after)
      (fun _ => False) := by
  unfold sysWhoami
  unfold SystemCall.whoamiBytes at inSlot mapped ⊢
  by_cases tooSmall : size < message.text.length
  · rw [if_pos tooSmall, if_pos tooSmall]
    have nothing :
        Satisfies (putFsBytes noPage task name []) memory _
          (fun _ => False) :=
      satisfies_putFsBytes accounted taskUser taskRange
        (by rwa [if_pos tooSmall] at inSlot)
        (by rwa [if_pos tooSmall] at mapped)
    exact nothing
  · rw [if_neg tooSmall] at inSlot mapped
    rw [if_neg tooSmall, if_neg tooSmall]
    obtain ⟨result, shape⟩ :=
      whoamiLoop_eq noPage task message name size 0 (Nat.zero_le _)
    rw [shape, List.drop_zero, Nat.add_zero]
    refine Satisfies.andThen
      (satisfies_putFsBytes accounted taskUser taskRange inSlot mapped) ?_
    exact fun _ _ stored => stored

/-- Taking a free page shows in no view. -/
theorem sameViews_taken
    (accounted : Accounted low high held memory)
    {page : Nat}
    (inMain : InMain low high page)
    (free : memory.memMap (page - lowMemPage) = 0#8) :
    SameViews memory (taken page memory) := by
  intro other offset user range inSlot
  have member := slotOf_mem user range inSlot
  apply view_congr
  · exact frameAt_congr (accounted.entryAt_taken inMain free member)
  · intro mappedPage maps
    rw [Accounted.ram_taken, if_neg]
    rintro rfl
    exact Accounted.frameAt_ne_of_refs
      (accounted.free_refs inMain free).1 member maps

/-- Stores made after a page was taken, seen from before. -/
theorem BytesStored.of_taken
    (accounted : Accounted low high held memory)
    {held' : Nat → Nat} {page offset : Nat} {values : List Byte}
    (taskUser : 0 < task)
    (taskRange : task < 64)
    (inMain : InMain low high page)
    (free : memory.memMap (page - lowMemPage) = 0#8)
    (stored :
      BytesStored low high held' task offset values (taken page memory)
        after) :
    BytesStored low high held' task offset values memory after := by
  have frames (slot : Nat × Nat) (member : slot ∈ userEntries) :
      (taken page memory).frameAt slot = memory.frameAt slot :=
    frameAt_congr (accounted.entryAt_taken inMain free member)
  refine ⟨stored.accounted, ?_, ?_⟩
  · intro slot member
    rw [stored.sameFrames slot member, frames slot member]
  · intro other otherOffset user range inSlot
    rw [stored.views other otherOffset user range inSlot,
      frames _ (slotOf_mem user range inSlot),
      frames _ (slotOf_mem taskUser taskRange inSlot),
      sameViews_taken accounted inMain free other otherOffset user range
        inSlot]

theorem AreaMapped.taken
    (accounted : Accounted low high held memory)
    {page offset size : Nat}
    (taskUser : 0 < task)
    (taskRange : task < 64)
    (inSlot : offset + size ≤ slotSize)
    (inMain : InMain low high page)
    (free : memory.memMap (page - lowMemPage) = 0#8)
    (mapped : AreaMapped low high memory task offset size) :
    AreaMapped low high (taken page memory) task offset size := by
  intro position lower upper
  obtain ⟨entry, entryShape, entryMain⟩ := mapped position lower upper
  have atSlot : position < slotSize := by
    omega
  refine ⟨entry, ?_, entryMain⟩
  rw [accounted.entryAt_taken inMain free
    (slotOf_mem taskUser taskRange atSlot)]
  exact entryShape

/-- Whether `get_free_page` fails is decided by its scan of `mem_map`. -/
theorem getFreePage_scan
    {page : Nat} {fresh : Memory}
    (handedOut : getFreePage memory = .ret page fresh) :
    page = 0 ↔ scanMemMap memory.memMap pagingPages = none := by
  unfold getFreePage at handedOut
  rw [bind_of_ret (show read memory = .ret memory memory from rfl)]
    at handedOut
  cases found : scanMemMap memory.memMap pagingPages with
  | none =>
    simp only [found] at handedOut
    cases handedOut
    simp
  | some index =>
    simp only [found] at handedOut
    cases handedOut
    simp [lowMemPage]

theorem satisfies_sysPipe
    (accounted : Accounted low high held memory)
    {files : FileTables} {inode fildes : Nat}
    (taskUser : 0 < task)
    (taskRange : task < 64)
    (inSlot : fildes + 8 ≤ slotSize)
    (mapped : AreaMapped low high memory task fildes 8) :
    Satisfies (sysPipe noPage task files inode fildes) memory
      (fun _ after =>
        ∃ held', BytesStored low high held' task fildes
          (SystemCall.pipeBytes files memory) memory after)
      (fun _ => False) := by
  have noBytes : BytesStored low high held task fildes [] memory memory := by
    have nothing :
        Satisfies (putFsBytes noPage task fildes []) memory _
          (fun _ => False) :=
      satisfies_putFsBytes accounted taskUser taskRange
        (show fildes + 0 ≤ slotSize by omega)
        (fun position lower upper => mapped position lower (by simp at upper; omega))
    exact nothing
  unfold sysPipe SystemCall.pipeBytes
  cases slotsShape : pipeSlots files with
  | none =>
    exact ⟨held, noBytes⟩
  | some found =>
    obtain ⟨slots, fds⟩ := found
    simp only
    have takes :
        getFreePage.Satisfies memory _ fun _ => False :=
      satisfies_getFreePage accounted
    obtain ⟨page, fresh, outcome, result⟩ := takes.returns
    rw [satisfies_bind_of_ret outcome]
    have scanned := getFreePage_scan outcome
    rcases result with ⟨zero, same, _⟩ | ⟨inMain, free, shape⟩
    · rw [if_pos zero, if_pos (scanned.mp zero), same]
      exact ⟨held, noBytes⟩
    · have notZero := accounted.ne_zero_of_main inMain
      rw [if_neg notZero, if_neg (fun isNone => notZero
        (scanned.mpr isNone)), shape, ← bind_assoc]
      have together :=
        putFsBytes_append noPage task fildes
          (longBytes (BitVec.ofNat 32 fds.1))
          (longBytes (BitVec.ofNat 32 fds.2))
      have stores :
          Satisfies (putFsBytes noPage task fildes
            (longBytes (BitVec.ofNat 32 fds.1) ++ longBytes (BitVec.ofNat 32 fds.2)))
            (taken page memory) _ (fun _ => False) :=
        satisfies_putFsBytes (accounted.taken_accounted inMain free)
          taskUser taskRange inSlot
          (mapped.taken accounted taskUser taskRange inSlot inMain
            free)
      rw [together] at stores
      refine Satisfies.andThen stores ?_
      intro _ after stored
      exact ⟨_, stored.of_taken accounted taskUser taskRange inMain
        free⟩

end Unverifying

/-! ## The calls that verify -/

section Verifying

variable {noPage : Nat → Routine Memory Unit} {task : Nat}

/-- No other task sees a change. -/
def OthersKeep (task : Nat) (memory after : Memory) : Prop :=
  ∀ other offset, 0 < other → other < 64 → other ≠ task →
    offset < slotSize → after.view other offset = memory.view other offset

theorem SameViews.othersKeep
    (same : SameViews memory after) :
    OthersKeep task memory after :=
  fun other offset user range _ inSlot => same other offset user range inSlot

/-- Stores into a stretch that was just verified. -/
theorem satisfies_verified
    (accounted : Accounted low high held memory)
    {offset size : Nat} {values : List Byte}
    (sameSize : values.length = size)
    (taskUser : 0 < task)
    (taskRange : task < 64)
    (inSlot : offset + size ≤ slotSize)
    (mapped : AreaMapped low high memory task offset size) :
    Satisfies
      (do
        verifyArea (task * slotSize) offset size
        putFsBytes noPage task offset values)
      memory
      (fun _ after => OthersKeep task memory after)
      (OthersKeep task memory) := by
  subst sameSize
  refine Satisfies.andThen
    ((satisfies_verifyArea accounted taskUser taskRange inSlot).mono
      (fun _ _ same => same) (fun _ kept => kept.2.othersKeep)) ?_
  intro _ middle verified
  refine (satisfies_putFsBytes verified.accounted taskUser taskRange
    inSlot
    (verified.areaMapped taskUser taskRange inSlot mapped)).mono ?_
    (fun _ same => same)
  intro _ after stored other position user range different atSlot
  rw [stored.views other position user range atSlot,
    verified.views other position user range atSlot]
  cases found : storedAt offset values position with
  | none =>
    rfl
  | some value =>
    simp only
    rw [if_neg]
    intro sameFrame
    unfold storedAt at found
    split at found
    · cases found
    · rename_i notBelow
      have inRange : position - offset < values.length := by
        by_contra outside
        rw [List.getElem?_eq_none (by omega)] at found
        cases found
      obtain ⟨entry, entryShape, isWritable, _⟩ :=
        verified.writable_at taskUser taskRange inSlot mapped
          (show offset ≤ position by omega)
          (show position < offset + values.length by omega)
      rw [frameAt_of_entry entryShape] at sameFrame
      refine verified.accounted.frameAt_ne_writable
        (slotOf_mem taskUser taskRange atSlot)
        (slotOf_mem user range atSlot) ?_ entryShape isWritable
        sameFrame
      intro same
      exact different ((slotOf_eq_iff atSlot atSlot).mp same).1

theorem satisfies_sysTime
    (accounted : Accounted low high held memory)
    {now : Word} {tloc : Nat}
    (taskUser : 0 < task)
    (taskRange : task < 64)
    (inSlot : tloc + (if tloc = 0 then 0 else 4) ≤ slotSize)
    (mapped :
      AreaMapped low high memory task tloc (if tloc = 0 then 0 else 4)) :
    Satisfies (sysTime noPage task now tloc) memory
      (fun _ after => OthersKeep task memory after)
      (OthersKeep task memory) := by
  unfold sysTime
  by_cases null : tloc = 0
  · rw [if_neg (not_not.mpr null), satisfies_pure]
    exact fun _ _ _ _ _ _ => rfl
  · rw [if_neg null] at inSlot mapped
    rw [if_pos null, ← bind_assoc]
    have stores :
        Satisfies
          (do
            verifyArea (task * slotSize) tloc 4
            putFsLong noPage task tloc now)
          memory (fun _ after => OthersKeep task memory after)
          (OthersKeep task memory) :=
      satisfies_verified accounted rfl taskUser taskRange inSlot mapped
    exact stores.andThen fun _ _ kept => kept

theorem satisfies_sysUname
    (accounted : Accounted low high held memory)
    {name : Nat}
    (taskUser : 0 < task)
    (taskRange : task < 64)
    (inSlot : name + (if name = 0 then 0 else thisname.length) ≤ slotSize)
    (mapped :
      AreaMapped low high memory task name
        (if name = 0 then 0 else thisname.length)) :
    Satisfies (sysUname noPage task name) memory
      (fun _ after => OthersKeep task memory after)
      (OthersKeep task memory) := by
  unfold sysUname
  by_cases null : name = 0
  · rw [if_pos null, satisfies_pure]
    exact fun _ _ _ _ _ _ => rfl
  · rw [if_neg null] at inSlot mapped
    rw [if_neg null, ← bind_assoc]
    exact (satisfies_verified accounted rfl taskUser taskRange inSlot
      mapped).andThen fun _ _ kept => kept

/-- A store that follows the page left behind by an earlier verification. -/
theorem BytesStored.after_moved
    {offset position other seenAt : Nat} {values : List Byte} {old : Word}
    (inSlot : position < slotSize)
    (stored : BytesStored low high held task offset values memory after)
    (moved : memory.frameAt (slotOf task position) ≠ some old.frame)
    (otherUser : 0 < other)
    (otherRange : other < 64)
    (maps : memory.frameAt (slotOf other position) = some old.frame)
    (seenInSlot : seenAt < slotSize)
    (samePage : seenAt / 4096 = position / 4096) :
    after.view other seenAt = memory.view other seenAt := by
  have taskSlot : slotOf task seenAt = slotOf task position :=
    (slotOf_eq_iff seenInSlot inSlot).mpr ⟨rfl, samePage⟩
  have otherSlot : slotOf other seenAt = slotOf other position :=
    (slotOf_eq_iff seenInSlot inSlot).mpr ⟨rfl, samePage⟩
  rw [stored.views other seenAt otherUser otherRange seenInSlot]
  cases storedAt offset values seenAt with
  | none =>
    rfl
  | some value =>
    simp only
    rw [taskSlot, otherSlot, maps, if_neg]
    exact fun same => moved same.symm

end Verifying

/-! ## `sys_waitpid` -/

/-- Entries are a matter of physical memory alone. -/
theorem frameAt_of_ram
    (same : after.ram = memory.ram)
    (slot : Nat × Nat) :
    after.frameAt slot = memory.frameAt slot := by
  unfold frameAt entryAt tableOf
  rw [same]

theorem ram_freePage_held
    (accounted : Accounted low high held memory)
    {page : Nat}
    (isHeld : 0 < held page)
    (ends : (freePage page memory).EndsIn after) :
    after.ram = memory.ram := by
  have frees :
      (freePage page).Satisfies memory
        (fun _ last => last.ram = memory.ram)
        (fun last => last.ram = memory.ram) :=
    (satisfies_freePage_held accounted isHeld).mono
      (fun _ _ freed => freed.2) (fun _ same => same)
  exact frees.of_end ends

theorem view_of_ram
    (same : after.ram = memory.ram)
    (task offset : Nat) :
    after.view task offset = memory.view task offset :=
  view_congr (frameAt_of_ram same _) (fun page _ => by rw [same])

section Waiting

variable {extMemK task : Nat} {current : TaskStruct}
variable {arguments : WaitArguments}

/-- While the caller waits, its pages stay in place. -/
theorem WaitsAgain.keeps
    {first waiting : Waiting}
    (waits : WaitsAgain extMemK task current arguments first waiting)
    (accounted : first.kernel.Accounted extMemK) :
    waiting.kernel.Accounted extMemK ∧
      SameSlot task first.kernel.memory waiting.kernel.memory := by
  induction waits with
  | first =>
    exact ⟨accounted, sameSlot_refl task _⟩
  | slept _ _ _ others inductionHypothesis =>
    obtain ⟨middleAccounted, same⟩ := inductionHypothesis
    obtain ⟨lastAccounted, rest⟩ := others_run others middleAccounted
    refine ⟨lastAccounted, ?_⟩
    intro slot member within
    rw [rest slot member within, same slot member within]

theorem slotOf_inSlot
    {offset : Nat}
    (inSlot : offset < slotSize) :
    InSlot task (slotOf task offset).1 := by
  unfold slotSize at inSlot
  unfold InSlot slotOf dirIndex
  omega

/-- A stretch stays mapped while its pages stay in place. -/
theorem AreaMapped.sameSlot
    {offset size : Nat}
    (taskUser : 0 < task)
    (taskRange : task < 64)
    (inSlot : offset + size ≤ slotSize)
    (mapped : AreaMapped low high memory task offset size)
    (same : SameSlot task memory after) :
    AreaMapped low high after task offset size := by
  intro position lower upper
  obtain ⟨entry, entryShape, inMain⟩ := mapped position lower upper
  have atSlot : position < slotSize := by
    omega
  have kept :=
    same _ (slotOf_mem taskUser taskRange atSlot) (slotOf_inSlot atSlot)
  rw [frameAt_of_entry entryShape, frameAt_eq_some] at kept
  obtain ⟨found, foundShape, foundFrame⟩ := kept
  refine ⟨found, foundShape, ?_⟩
  rw [foundFrame]
  exact inMain

end Waiting

/-! ## All calls -/

section Calls

variable {extMemK task : Nat} {start : Kernel}
variable {noPage : Nat → Routine Memory Unit}

/-- A call of one step that no other task sees isolates. -/
theorem SystemCall.isolates_of_othersKeep
    {call : SystemCall}
    (keeps :
      ∀ before after, OwnStep extMemK noPage task start call before after →
        OthersKeep task before after) :
    call.Isolates extMemK noPage task start := by
  intro before after own position entry _ _ _ other user range different _
    offset inSlot _
  exact keeps before after own other offset user range different inSlot

/-- The store of `sys_waitpid`, however long it has slept. -/
theorem waitpid_store
    (accounted : start.Accounted extMemK)
    (taskUser : 0 < task)
    (taskRange : task < 64)
    {statAddr : Nat} {word : Word}
    {verified last : Memory} {storing : Kernel}
    (inSlot : statAddr + 4 ≤ slotSize)
    (mapped :
      AreaMapped (mainMemoryStart extMemK / 4096)
        (memoryEnd extMemK / 4096) start.memory task statAddr 4)
    (verifies :
      AreaVerified (mainMemoryStart extMemK / 4096)
        (memoryEnd extMemK / 4096) start.held task (statAddr / 4096)
        ((4 + statAddr % 4096 + 4095) / 4096) start.memory verified)
    (storingAccounted : storing.Accounted extMemK)
    (sameSlot : SameSlot task verified storing.memory)
    (ends :
      (putFsLong noPage task statAddr word storing.memory).EndsIn last)
    {position other offset : Nat} {entry : Word}
    (lower : statAddr ≤ position)
    (upper : position < statAddr + 4)
    (shared : SharedThrough start.memory task position entry)
    (otherUser : 0 < other)
    (otherRange : other < 64)
    (maps : storing.memory.frameAt (slotOf other position) = some entry.frame)
    (offsetInSlot : offset < slotSize)
    (samePage : offset / 4096 = position / 4096) :
    last.view other offset = storing.memory.view other offset := by
  have atSlot : position < slotSize := by
    omega
  have moved :=
    verifies.moved accounted taskUser taskRange inSlot mapped lower upper
      shared
  have place :=
    sameSlot _ (slotOf_mem taskUser taskRange atSlot)
      (slotOf_inSlot atSlot)
  rw [← place] at moved
  have stillMapped :=
    (verifies.areaMapped taskUser taskRange inSlot mapped).sameSlot
      taskUser taskRange inSlot sameSlot
  have stores :
      (putFsLong noPage task statAddr word).Satisfies storing.memory _
        (fun _ => False) :=
    satisfies_putFsBytes storingAccounted taskUser taskRange inSlot
      stillMapped
  obtain ⟨value, after, outcome, stored⟩ := stores.returns
  have sameEnd : after = last := by
    rcases ends with ⟨_, returned⟩ | abandoned
    · rw [outcome] at returned
      cases returned
      rfl
    · rw [outcome] at abandoned
      cases abandoned
  rw [← sameEnd]
  exact stored.after_moved atSlot moved otherUser otherRange maps
    offsetInSlot samePage

theorem waitpid_isolates
    {current : TaskStruct} {tasks : Nat → Option TaskStruct}
    {arguments : WaitArguments}
    (accounted : start.Accounted extMemK)
    (taskUser : 0 < task)
    (taskRange : task < 64)
    (inSlot : arguments.statAddr + 4 ≤ slotSize)
    (mapped :
      AreaMapped (mainMemoryStart extMemK / 4096)
        (memoryEnd extMemK / 4096) start.memory task arguments.statAddr
        4) :
    (SystemCall.waitpid current tasks arguments).Isolates extMemK noPage
      task start := by
  have verifying :=
    satisfies_verifyArea accounted taskUser taskRange inSlot
  intro before after own position entry lower upper shared other user range
    different maps offset offsetInSlot samePage
  cases own with
  | waitpidVerify ends =>
    have views :
        (verifyArea (task * slotSize) arguments.statAddr
          4).Satisfies start.memory
          (fun _ last => SameViews start.memory last)
          (SameViews start.memory) :=
      verifying.mono (fun _ _ verified => verified.views)
        (fun _ kept => kept.2)
    exact views.of_end ends other offset user range offsetInSlot
  | waitpidStopped verifies waits _ ends =>
    have verified := verifying.of_ret verifies
    obtain ⟨waitingAccounted, same⟩ := waits.keeps verified.accounted
    exact waitpid_store accounted taskUser taskRange inSlot mapped
      verified waitingAccounted same ends lower upper shared user range
      maps offsetInSlot samePage
  | waitpidRelease verifies waits _ isHeld ends =>
    have verified := verifying.of_ret verifies
    have waiting := (waits.keeps verified.accounted).1
    exact view_of_ram (ram_freePage_held waiting isHeld ends) other
      offset
  | waitpidZombie verifies waits _ isHeld released others ends =>
    have verified := verifying.of_ret verifies
    obtain ⟨waitingAccounted, same⟩ := waits.keeps verified.accounted
    have frees :
        (freePage _).Satisfies _ _ (fun _ => False) :=
      satisfies_freePage_held waitingAccounted isHeld
    obtain ⟨freedAccounted, ram⟩ := frees.of_ret released
    obtain ⟨wakingAccounted, sameLater⟩ :=
      others_run others freedAccounted
    refine waitpid_store accounted taskUser taskRange inSlot mapped
      verified wakingAccounted ?_ ends lower upper shared user range
      maps offsetInSlot samePage
    intro slot member within
    rw [sameLater slot member within, ← same slot member within]
    exact frameAt_of_ram ram slot

/-- A call that is one run of unverified stores. -/
theorem isolates_iff_of_stores
    {α : Type} {routine : Routine Memory α} {call : SystemCall}
    (accounted : start.Accounted extMemK)
    (taskUser : 0 < task)
    (taskRange : task < 64)
    (inSlot : call.area.1 + call.area.2 ≤ slotSize)
    (fits : (call.unverified start.memory).length ≤ call.area.2)
    (steps :
      ∀ before after,
        OwnStep extMemK noPage task start call before after ↔
          before = start.memory ∧ (routine start.memory).EndsIn after)
    (satisfied :
      routine.Satisfies start.memory
        (fun _ after =>
          ∃ held', BytesStored (mainMemoryStart extMemK / 4096)
            (memoryEnd extMemK / 4096) held' task call.area.1
            (call.unverified start.memory) start.memory after)
        (fun _ => False)) :
    call.Isolates extMemK noPage task start ↔
      call.Harmless task start.memory := by
  obtain ⟨value, last, outcome, held', stored⟩ := satisfied.returns
  have onlyEnd {after : Memory}
      (ends : (routine start.memory).EndsIn after) :
      after = last := by
    rcases ends with ⟨_, returned⟩ | abandoned
    · rw [outcome] at returned
      cases returned
      rfl
    · rw [outcome] at abandoned
      cases abandoned
  have equivalence :=
    stored.isolates_iff accounted fits taskUser taskRange inSlot
  constructor
  · intro isolates
    apply equivalence.mp
    have own :
        OwnStep extMemK noPage task start call start.memory last :=
      (steps _ _).mpr ⟨rfl, Or.inl ⟨value, outcome⟩⟩
    exact isolates start.memory last own
  · intro harmless before after own
    obtain ⟨same, ends⟩ := (steps before after).mp own
    rw [same, onlyEnd ends]
    exact equivalence.mpr harmless

/-- A call that verifies isolates, and stores nothing unverified. -/
theorem isolates_iff_of_verified
    {call : SystemCall}
    (nothing : call.unverified start.memory = [])
    (isolates : call.Isolates extMemK noPage task start) :
    call.Isolates extMemK noPage task start ↔
      call.Harmless task start.memory := by
  refine ⟨fun _ => ?_, fun _ => isolates⟩
  intro i value entry found
  rw [nothing] at found
  cases found

/--
For every state of the memory manager that forks can reach, and every call that
stores at mapped addresses: the call keeps the bytes of the tasks that share its
target pages exactly when it stores nothing unverified into them but what they
hold.  `sys_time`, `sys_uname`, `sys_waitpid` and `cp_stat` store nothing
unverified.
-/
theorem isolates_iff_harmless
    {call : SystemCall}
    (reached : (pageMachine extMemK).Reachable start)
    (taskUser : 0 < task)
    (taskRange : task < 64)
    (inSlot : call.area.1 + call.area.2 ≤ slotSize)
    (mapped :
      AreaMapped (mainMemoryStart extMemK / 4096)
        (memoryEnd extMemK / 4096) start.memory task call.area.1
        call.area.2) :
    call.Isolates extMemK noPage task start ↔
      call.Harmless task start.memory := by
  have accounted : start.Accounted extMemK :=
    reached.invariant (fun _ => initial_accounted)
      (preserves_accounted extMemK)
  cases call with
  | whoami message name size =>
    apply isolates_iff_of_stores accounted taskUser taskRange inSlot
      (Nat.le_refl _)
    · intro before after
      constructor
      · intro own
        cases own with
        | whoami ends => exact ⟨rfl, ends⟩
      · rintro ⟨rfl, ends⟩
        exact .whoami ends
    · exact (satisfies_sysWhoami accounted taskUser taskRange inSlot
        mapped).mono (fun _ _ stored => ⟨_, stored⟩)
        (fun _ same => same)
  | pipe files inode fildes =>
    apply isolates_iff_of_stores accounted taskUser taskRange inSlot
    · change (SystemCall.pipeBytes files start.memory).length ≤ 8
      unfold SystemCall.pipeBytes
      split
      · exact Nat.zero_le _
      · split
        · exact Nat.zero_le _
        · exact Nat.le_refl 8
    · intro before after
      constructor
      · intro own
        cases own with
        | pipe ends => exact ⟨rfl, ends⟩
      · rintro ⟨rfl, ends⟩
        exact .pipe ends
    · exact satisfies_sysPipe accounted taskUser taskRange inSlot mapped
  | time now tloc =>
    apply isolates_iff_of_verified rfl
    apply SystemCall.isolates_of_othersKeep
    intro before after own
    cases own with
    | time ends =>
      exact (satisfies_sysTime accounted taskUser taskRange inSlot
        mapped).of_end ends
  | uname name =>
    apply isolates_iff_of_verified rfl
    apply SystemCall.isolates_of_othersKeep
    intro before after own
    cases own with
    | uname ends =>
      exact (satisfies_sysUname accounted taskUser taskRange inSlot
        mapped).of_end ends
  | cpStat inode padding statbuf =>
    apply isolates_iff_of_verified rfl
    apply SystemCall.isolates_of_othersKeep
    intro before after own
    cases own with
    | cpStat ends =>
      have stores :
          (cpStat noPage task inode padding statbuf).Satisfies
            start.memory
            (fun _ last => OthersKeep task start.memory last)
            (OthersKeep task start.memory) :=
        satisfies_verified accounted
          (statBytes_length inode padding) taskUser taskRange inSlot
          mapped
      exact stores.of_end ends
  | waitpid current tasks arguments =>
    exact isolates_iff_of_verified rfl
      (waitpid_isolates accounted taskUser taskRange inSlot mapped)

end Calls

/-! ## A name stored into a shared page -/

section Sharing

/-- A page for task 1, placed by `get_empty_page`. -/
def firstPage : PageCall :=
  .getEmptyPage slotSize

/-- Task 1 forks task 2. -/
def secondFork : PageCall :=
  .copyMem ⟨slotSize, slotSize, 4096, 4096⟩ 1 2

/-- The name `hi`. -/
def hi : Message where
  text := [104#8, 105#8]
  fits := by decide
  noNul := by decide

/-- Task 1's page is shared with task 2, and `sys_whoami` changes it for both. -/
def sharedTest (kernel : Kernel) : Bool :=
  (List.range 8).all (fun position =>
    (kernel.memory.entryAt (slotOf 1 position)).any fun entry =>
      decide (InMain (mainMemoryStart 15360 / 4096)
        (memoryEnd 15360 / 4096) entry.frame) &&
      !entry.writable &&
      decide (lowMemPage ≤ entry.frame) &&
      decide (1 < (kernel.memory.memMap (entry.frame - lowMemPage)).toNat) &&
      kernel.memory.frameAt (slotOf 2 position) == some entry.frame) &&
  kernel.memory.view 2 0 == some 0#8 &&
  (sysWhoami (fun _ => pure ()) 1 hi 0 3 kernel.memory).passes
    (fun _ after => after.view 2 0 == some 104#8)

/-- The two calls from the start, and the test at their end. -/
def sharingTest : Bool :=
  (firstPage.perform swapper).passes fun _ kernel =>
    (List.range 16).all (fun dir =>
      kernel.memory.tableOf (32 + dir) == none) &&
    (secondFork.perform kernel).passes fun _ last => sharedTest last

theorem sharing_passes :
    sharingTest = true := by
  decide +kernel

/-- The two calls can be made, whatever is tested at their end. -/
theorem reachable_of_sharing
    {test : Kernel → Bool}
    (passed :
      ((firstPage.perform swapper).passes fun _ kernel =>
        (List.range 16).all (fun dir =>
          kernel.memory.tableOf (32 + dir) == none) &&
        (secondFork.perform kernel).passes fun _ last => test last) = true) :
    ∃ start, (pageMachine 15360).Reachable start ∧ test start = true := by
  obtain ⟨_, middle, placed, passed⟩ := Outcome.passes_iff.mp passed
  rw [Bool.and_eq_true, Outcome.passes_iff, List.all_eq_true] at passed
  obtain ⟨empty, _, start, forked, passed⟩ := passed
  have first : firstPage.Enabled swapper := by
    have member :
        (dirIndex slotSize, tableIndex slotSize) ∈ userEntries := by
      rw [mem_userEntries]
      decide
    exact ⟨member, entryAt_booted _ _ member⟩
  have second : secondFork.Enabled middle := by
    refine ⟨by decide, by decide, by decide, by decide, rfl, rfl,
      Nat.le_refl _, by decide, fun zero => absurd zero (by decide), ?_⟩
    rintro dir ⟨lower, upper⟩
    have isNone :=
      empty (dir - 32) (List.mem_range.mpr (by omega))
    rw [Nat.add_sub_cancel' (by omega)] at isNone
    simpa using isNone
  exact ⟨start,
    reachable_call (reachable_call swapper_reachable first placed)
      second forked, passed⟩

/-- Two tasks share the first page of their slots. -/
theorem sharing_reachable :
    ∃ start, (pageMachine 15360).Reachable start ∧
      (∀ position, position < 8 → ∃ entry,
        SharedThrough start.memory 1 position entry ∧
          InMain (mainMemoryStart 15360 / 4096)
            (memoryEnd 15360 / 4096) entry.frame ∧
          start.memory.frameAt (slotOf 2 position) = some entry.frame) ∧
      start.memory.view 2 0 = some 0#8 ∧
      ∃ value after,
        sysWhoami (fun _ => pure ()) 1 hi 0 3 start.memory =
            .ret value after ∧
          after.view 2 0 = some 104#8 := by
  obtain ⟨start, reached, passed⟩ := reachable_of_sharing sharing_passes
  unfold sharedTest at passed
  simp only [Bool.and_eq_true, List.all_eq_true, List.mem_range,
    beq_iff_eq, Outcome.passes_iff, Option.any_eq_true, decide_eq_true_eq,
    Bool.not_eq_true'] at passed
  obtain ⟨⟨shared, clear⟩, value, after, ran, seen⟩ := passed
  refine ⟨start, reached, ?_, clear, value, after, ran, seen⟩
  intro position inRange
  obtain ⟨entry, mapped, ⟨⟨⟨inMain, readOnly⟩, above⟩, counted⟩, same⟩ :=
    shared position inRange
  exact ⟨entry, ⟨mapped, readOnly, above, counted⟩, inMain, same⟩

/-- `sys_whoami` writes the name into the other task's memory. -/
theorem whoami_not_isolated :
    ∃ start, (pageMachine 15360).Reachable start ∧
      AreaMapped (mainMemoryStart 15360 / 4096)
        (memoryEnd 15360 / 4096) start.memory 1
        (SystemCall.whoami hi 0 3).area.1
        (SystemCall.whoami hi 0 3).area.2 ∧
      ¬ (SystemCall.whoami hi 0 3).Isolates 15360 (fun _ => pure ()) 1
        start := by
  obtain ⟨start, reached, shared, clear, value, after, ran, seen⟩ :=
    sharing_reachable
  refine ⟨start, reached, ?_, ?_⟩
  · intro position _ upper
    have inRange : position < 8 :=
      Nat.lt_of_lt_of_le upper (by decide)
    obtain ⟨entry, sharedAt, inMain, _⟩ := shared position inRange
    exact ⟨entry, sharedAt.mapped, inMain⟩
  · intro isolates
    obtain ⟨entry, sharedAt, _, maps⟩ := shared 0 (by decide)
    have kept :=
      isolates _ _ (.whoami (Or.inl ⟨value, ran⟩)) 0 entry (by decide)
        (by decide) sharedAt 2 (by decide) (by decide) (by decide) maps 0
        (by decide) rfl
    rw [clear, seen] at kept
    exact absurd kept (by decide)

/-- In the same state `sys_time` keeps out of the other task's memory. -/
theorem isolates_iff_harmless_time :
    ∃ start, (pageMachine 15360).Reachable start ∧
      (∃ entry, SharedThrough start.memory 1 4 entry) ∧
      (SystemCall.time 0x12345678#32 4).Isolates 15360
        (fun _ => pure ()) 1 start := by
  obtain ⟨start, reached, shared, _⟩ := sharing_reachable
  have mapped :
      AreaMapped (mainMemoryStart 15360 / 4096)
        (memoryEnd 15360 / 4096) start.memory 1
        (SystemCall.time 0x12345678#32 4).area.1
        (SystemCall.time 0x12345678#32 4).area.2 := by
    intro position _ upper
    have inRange : position < 8 :=
      Nat.lt_of_lt_of_le upper (by decide)
    obtain ⟨entry, sharedAt, inMain, _⟩ := shared position inRange
    exact ⟨entry, sharedAt.mapped, inMain⟩
  obtain ⟨entry, sharedAt, _⟩ := shared 4 (by decide)
  refine ⟨start, reached, ⟨entry, sharedAt⟩, ?_⟩
  apply (isolates_iff_harmless reached (by decide) (by decide)
    (by decide) mapped).mpr
  intro i value _ found
  cases found

end Sharing

end Memory

end HitOs
