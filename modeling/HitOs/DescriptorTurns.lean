import HitOs.DescriptorSteps

namespace HitOs

/-!
# Turns of tasks that open and close files

While a task sleeps in a call it holds the descriptors and the entries that the call has
taken, and nobody else refers to these entries.  Whatever one task does in a turn
keeps that, counts every descriptor, and closes exactly the files whose last descriptor
it gives up.
-/

namespace Files

open Routine

variable {before after : Kernel} {changed : Nat}

namespace Kernel

/-- A call has taken the entry and has not returned yet. -/
def Held (kernel : Kernel) (index : Nat) : Prop :=
  ∃ slot fd, (fd, index) ∈ (kernel.point slot).held

/-- A descriptor that a call has returned refers to the entry. -/
def Open (kernel : Kernel) (index : Nat) : Prop :=
  ∃ slot fd, kernel.system.entry (slot, fd) = some index ∧
    (fd, index) ∉ (kernel.point slot).held

end Kernel

/-- What a step does to the files, and to the inodes of those it closes. -/
structure Exact (before after : Kernel) : Prop where
  /-- An entry that a call takes is not in use. -/
  fresh :
    ∀ index, after.Held index → ¬ before.Held index →
      ∀ slot, before.system.entry slot ≠ some index
  /-- An entry that a call hands out has one descriptor. -/
  alone :
    ∀ index, after.Open index → ¬ before.Open index →
      occurrences descriptors after.system.entry index = 1
  /-- A file keeps its inode. -/
  inode :
    ∀ index, before.Open index →
      (after.system.file index).inode = (before.system.file index).inode
  /-- The inode of a file is put, once, when its last descriptor goes away. -/
  put :
    ∃ entry : Option (Nat × Nat), after.put = entry.toList ++ before.put ∧
      ∀ index number,
        entry = some (index, number) ↔
          before.Open index ∧ ¬ after.Open index ∧
            (before.system.file index).inode = number

/-- The invariant of the runs. -/
structure Sound (kernel : Kernel) : Prop where
  counted : kernel.system.Counted
  tasks : NoMore kernel.system
  held :
    ∀ {slot fd index}, (fd, index) ∈ (kernel.point slot).held →
      kernel.system.entry (slot, fd) = some index
  /-- Nobody else refers to an entry that a call has taken. -/
  alone :
    ∀ {slot fd index}, (fd, index) ∈ (kernel.point slot).held →
      ∀ other, kernel.system.entry other = some index → other = (slot, fd)
  distinct :
    ∀ slot, ((kernel.point slot).held.map Prod.snd).Nodup
  closed :
    ∀ slot fd, fd < (kernel.point slot).closed → kernel.system.entry (slot, fd) = none

/-- One task, the one that has changed, has had its turn. -/
structure Turn (before after : Kernel) (changed : Nat) : Prop where
  points :
    ∀ slot, slot ≠ changed →
      (after.point slot).held = (before.point slot).held ∧
        (after.point slot).closed = (before.point slot).closed
  entries :
    ∀ slot : Nat × Nat, slot.1 ≠ changed →
      after.system.entry slot = before.system.entry slot
  counted : after.system.Counted
  tasks : NoMore after.system
  held :
    ∀ {fd index}, (fd, index) ∈ (after.point changed).held →
      after.system.entry (changed, fd) = some index
  distinct :
    ((after.point changed).held.map Prod.snd).Nodup
  closed :
    ∀ fd, fd < (after.point changed).closed → after.system.entry (changed, fd) = none
  /-- Where the entries come from that its descriptors refer to. -/
  sources :
    ∀ {fd index}, after.system.entry (changed, fd) = some index →
      (fd, index) ∈ (after.point changed).held ∨ before.Open index ∨
        (fd, index) ∈ (before.point changed).held
  taken :
    ∀ {fd index}, (fd, index) ∈ (after.point changed).held →
      (fd, index) ∈ (before.point changed).held ∨
        ∀ slot, before.system.entry slot ≠ some index
  inode :
    ∀ index, before.Open index →
      (after.system.file index).inode = (before.system.file index).inode

namespace Sound

variable {slot fd index : Nat}

/-- An entry that a call has taken is not open. -/
theorem not_open
    (sound : Sound before)
    (held : (fd, index) ∈ (before.point slot).held) :
    ¬ before.Open index := by
  rintro ⟨other, fd', refers, free⟩
  have same := sound.alone held _ refers
  cases same
  exact free held

/-- A descriptor of a task that is not in a call is open. -/
theorem isOpen
    (_ : Sound before)
    (refers : before.system.entry (slot, fd) = some index)
    (idle : (before.point slot).held = []) :
    before.Open index :=
  ⟨slot, fd, refers, by rw [idle]; exact List.not_mem_nil⟩

/-- An entry that is in use is open, or taken. -/
theorem open_or_held
    (_ : Sound before)
    (refers : before.system.entry (slot, fd) = some index) :
    before.Open index ∨ (fd, index) ∈ (before.point slot).held := by
  by_cases held : (fd, index) ∈ (before.point slot).held
  · exact Or.inr held
  · exact Or.inl ⟨slot, fd, refers, held⟩

end Sound

section Turn

variable {fd index : Nat}

/-- What the task refers to in an entry that it has taken. -/
theorem Turn.only
    (sound : Sound before)
    (turn : Turn before after changed)
    (held : (fd, index) ∈ (after.point changed).held)
    {fd' : Nat}
    (refers : after.system.entry (changed, fd') = some index) :
    fd' = fd := by
  have same (held' : (fd', index) ∈ (after.point changed).held) : fd' = fd :=
    congrArg Prod.fst (List.inj_on_of_nodup_map turn.distinct held' held rfl)
  rcases turn.sources refers with heldAfter | isOpen | heldBefore
  · exact same heldAfter
  · rcases turn.taken held with heldBefore | unused
    · exact absurd isOpen (sound.not_open heldBefore)
    · obtain ⟨slot, other, refersBefore, _⟩ := isOpen
      exact absurd refersBefore (unused _)
  · rcases turn.taken held with heldToo | unused
    · have whole := sound.alone heldToo _ (sound.held heldBefore)
      exact congrArg Prod.snd whole
    · exact absurd (sound.held heldBefore) (unused _)

/-- The step lemma: a turn keeps the invariant. -/
theorem Turn.sound
    (sound : Sound before)
    (turn : Turn before after changed) :
    Sound after where
  counted := turn.counted
  tasks := turn.tasks
  held := by
    intro slot fd index held
    by_cases same : slot = changed
    · subst same
      exact turn.held held
    · rw [(turn.points slot same).1] at held
      rw [turn.entries _ same]
      exact sound.held held
  alone := by
    intro slot fd index held other refers
    by_cases same : slot = changed
    · subst same
      by_cases own : other.1 = slot
      · obtain ⟨_, fd'⟩ := other
        cases own
        rw [turn.only sound held refers]
      · rw [turn.entries other own] at refers
        rcases turn.taken held with heldBefore | unused
        · exact sound.alone heldBefore other refers
        · exact absurd refers (unused other)
    · rw [(turn.points slot same).1] at held
      by_cases own : other.1 = changed
      · obtain ⟨_, fd'⟩ := other
        cases own
        -- the task would refer to what another one has taken
        rcases turn.sources refers with heldAfter | isOpen | heldBefore
        · rcases turn.taken heldAfter with heldBefore | unused
          · exact sound.alone held _ (sound.held heldBefore)
          · exact absurd (sound.held held) (unused _)
        · exact absurd isOpen (sound.not_open held)
        · exact sound.alone held _ (sound.held heldBefore)
      · rw [turn.entries other own] at refers
        exact sound.alone held other refers
  distinct := by
    intro slot
    by_cases same : slot = changed
    · subst same
      exact turn.distinct
    · rw [(turn.points slot same).1]
      exact sound.distinct slot
  closed := by
    intro slot fd below
    by_cases same : slot = changed
    · subst same
      exact turn.closed fd below
    · rw [(turn.points slot same).2] at below
      rw [turn.entries _ same]
      exact sound.closed slot fd below

/-- Files stay open, where those of the task do. -/
theorem Turn.stays
    (turn : Turn before after changed)
    (own :
      ∀ fd index, before.system.entry (changed, fd) = some index →
        (fd, index) ∉ (before.point changed).held → after.Open index)
    (index : Nat)
    (isOpen : before.Open index) :
    after.Open index := by
  obtain ⟨slot, fd, refers, free⟩ := isOpen
  by_cases same : slot = changed
  · subst same
    exact own fd index refers free
  · refine ⟨slot, fd, ?_, ?_⟩
    · rw [turn.entries _ same]
      exact refers
    · rw [(turn.points slot same).1]
      exact free

/-- What is open after a turn and was not open before, the task had taken. -/
theorem Turn.opened
    (sound : Sound before)
    (turn : Turn before after changed)
    (isOpen : after.Open index)
    (notOpen : ¬ before.Open index) :
    occurrences descriptors after.system.entry index = 1 := by
  obtain ⟨slot, fd, refers, free⟩ := isOpen
  have same : slot = changed := by
    by_contra different
    rw [turn.entries _ different] at refers
    rw [(turn.points slot different).1] at free
    exact notOpen ⟨slot, fd, refers, free⟩
  subst same
  have mine {fd' : Nat}
      (refers' : after.system.entry (slot, fd') = some index) :
      (fd', index) ∈ (before.point slot).held ∨
        (fd', index) ∈ (after.point slot).held := by
    rcases turn.sources refers' with held | isOpen | held
    · exact Or.inr held
    · exact absurd isOpen notOpen
    · exact Or.inl held
  have held := (mine refers).resolve_right free
  refine turn.counted.occurrences_eq_one refers ?_
  intro other otherRefers
  by_cases own : other.1 = slot
  · obtain ⟨_, fd'⟩ := other
    cases own
    rcases mine otherRefers with heldBefore | heldAfter
    · exact sound.alone held _ (sound.held heldBefore)
    · rcases turn.taken heldAfter with heldBefore | unused
      · exact sound.alone held _ (sound.held heldBefore)
      · exact absurd (sound.held held) (unused _)
  · rw [turn.entries other own] at otherRefers
    exact sound.alone held other otherRefers

/-- A turn is exact, where it puts the right inodes. -/
theorem Turn.exact
    (sound : Sound before)
    (turn : Turn before after changed)
    (put :
      ∃ entry : Option (Nat × Nat), after.put = entry.toList ++ before.put ∧
        ∀ index number,
          entry = some (index, number) ↔
            before.Open index ∧ ¬ after.Open index ∧
              (before.system.file index).inode = number) :
    Exact before after where
  fresh := by
    rintro index ⟨slot, fd, held⟩ notHeld
    by_cases same : slot = changed
    · subst same
      rcases turn.taken held with heldBefore | unused
      · exact absurd ⟨slot, fd, heldBefore⟩ notHeld
      · exact unused
    · rw [(turn.points slot same).1] at held
      exact absurd ⟨slot, fd, held⟩ notHeld
  alone := fun _ isOpen notOpen => turn.opened sound isOpen notOpen
  inode := turn.inode
  put := put

/-- A turn that closes no file and puts no inode. -/
theorem Turn.exact_of_stays
    (sound : Sound before)
    (turn : Turn before after changed)
    (put : after.put = before.put)
    (stays : ∀ index, before.Open index → after.Open index) :
    Exact before after := by
  refine turn.exact sound ⟨none, put, fun index number => ?_⟩
  constructor
  · exact fun same => nomatch same
  · exact fun gone => absurd (stays index gone.1) gone.2.1

end Turn

/-! ## Turns of the tasks -/

/-- The kernel after a turn of a task that is at the given point now. -/
def Kernel.turned
    (kernel : Kernel)
    (current : Nat)
    (system : System)
    (point : Point)
    (put : List (Nat × Nat)) : Kernel where
  system := system
  point := Function.update kernel.point current point
  put := put

section Turns

variable {kernel : Kernel} {current : Nat} {system : System} {point : Point}
variable {put : List (Nat × Nat)}

@[simp] theorem turned_point :
    (kernel.turned current system point put).point current = point :=
  Function.update_self _ _ _

@[simp] theorem turned_system :
    (kernel.turned current system point put).system = system :=
  rfl

theorem turned_points
    {slot : Nat}
    (different : slot ≠ current) :
    ((kernel.turned current system point put).point slot).held =
        (kernel.point slot).held ∧
      ((kernel.turned current system point put).point slot).closed =
        (kernel.point slot).closed := by
  unfold Kernel.turned
  simp only
  rw [Function.update_of_ne different]
  exact ⟨rfl, rfl⟩

/-- A turn that changes no descriptor and no count. -/
theorem turn_quiet
    {files : List Nat}
    (sound : Sound kernel)
    (quiet : Quiet files kernel.system system)
    (subset : ∀ pair ∈ point.held, pair ∈ (kernel.point current).held)
    (distinct : (point.held.map Prod.snd).Nodup)
    (closed :
      ∀ fd, fd < point.closed → kernel.system.entry (current, fd) = none)
    (notOpen : ∀ index ∈ files, ¬ kernel.Open index) :
    Sound (kernel.turned current system point kernel.put) ∧
      Exact kernel (kernel.turned current system point kernel.put) := by
  have turn :
      Turn kernel (kernel.turned current system point kernel.put) current := by
    refine ⟨fun slot => turned_points, ?_, ?_, quiet.tasks sound.tasks,
      ?_, ?_, ?_, ?_, ?_, ?_⟩
    · intro slot _
      rw [turned_system, quiet.entries]
    · rw [turned_system]
      unfold System.Counted
      rw [quiet.entries, quiet.counts]
      exact sound.counted
    · intro fd index held
      rw [turned_point] at held
      rw [turned_system, quiet.entries]
      exact sound.held (subset _ held)
    · rw [turned_point]
      exact distinct
    · intro fd below
      rw [turned_point] at below
      rw [turned_system, quiet.entries]
      exact closed fd below
    · intro fd index refers
      rw [turned_system, quiet.entries] at refers
      exact Or.inr (sound.open_or_held refers)
    · intro fd index held
      rw [turned_point] at held
      exact Or.inl (subset _ held)
    · intro index isOpen
      exact quiet.inodes index fun member => notOpen index member isOpen
  refine ⟨turn.sound sound, turn.exact_of_stays sound rfl (turn.stays ?_)⟩
  intro fd index refers free
  refine ⟨current, fd, ?_, ?_⟩
  · rw [turned_system, quiet.entries]
    exact refers
  · rw [turned_point]
    exact fun held => free (subset _ held)

/-- A turn in which a free descriptor is made to refer to an entry. -/
theorem turn_attached
    {fd index : Nat}
    (sound : Sound kernel)
    (present : current < nrTasks)
    (inTable : index < nrFile)
    (attached : Attached (current, fd) index kernel.system system)
    (idle : (kernel.point current).held = [])
    (isZero : point.closed = 0)
    (fresh :
      (point.held = [(fd, index)] ∧ kernel.system.count index = 0#16) ∨
        (point.held = [] ∧ kernel.Open index)) :
    Sound (kernel.turned current system point kernel.put) ∧
      Exact kernel (kernel.turned current system point kernel.put) := by
  have entries (other : Nat × Nat) (different : other ≠ (current, fd)) :
      system.entry other = kernel.system.entry other := by
    rw [attached.entries, Function.update_of_ne different]
  have mine : system.entry (current, fd) = some index := by
    rw [attached.entries, Function.update_self]
  have turn :
      Turn kernel (kernel.turned current system point kernel.put) current := by
    refine ⟨fun slot => turned_points, ?_, ?_, attached.tasks sound.tasks,
      ?_, ?_, ?_, ?_, ?_, ?_⟩
    · intro slot different
      exact entries slot fun same => different (congrArg Prod.fst same)
    · rw [turned_system]
      unfold System.Counted
      rw [attached.entries, attached.counts]
      exact sound.counted.attach
        (mem_descriptors.mpr ⟨present, attached.range⟩) inTable attached.free
    · intro fd' other held
      rw [turned_point] at held
      rcases fresh with ⟨only, _⟩ | ⟨nothing, _⟩
      · rw [only, List.mem_singleton] at held
        cases held
        exact mine
      · rw [nothing] at held
        cases held
    · rw [turned_point]
      rcases fresh with ⟨only, _⟩ | ⟨nothing, _⟩
      · rw [only]
        exact List.nodup_singleton _
      · rw [nothing]
        exact List.nodup_nil
    · intro fd' below
      rw [turned_point, isZero] at below
      exact absurd below (Nat.not_lt_zero _)
    · intro fd' other refers
      rw [turned_system] at refers
      by_cases same : fd' = fd
      · subst same
        cases mine.symm.trans refers
        rcases fresh with ⟨only, _⟩ | ⟨_, isOpen⟩
        · rw [turned_point, only]
          exact Or.inl (List.mem_singleton_self _)
        · exact Or.inr (Or.inl isOpen)
      · rw [entries _ fun whole => same (congrArg Prod.snd whole)] at refers
        exact Or.inr (Or.inl (sound.isOpen refers idle))
    · intro fd' other held
      rw [turned_point] at held
      rcases fresh with ⟨only, zero⟩ | ⟨nothing, _⟩
      · rw [only, List.mem_singleton] at held
        cases held
        exact Or.inr (sound.counted.unused zero)
      · rw [nothing] at held
        cases held
    · exact fun other _ => attached.inodes other
  refine ⟨turn.sound sound, turn.exact_of_stays sound rfl (turn.stays ?_)⟩
  intro fd' other refers _
  have different : fd' ≠ fd := by
    rintro rfl
    cases refers.symm.trans attached.free
  refine ⟨current, fd', ?_, ?_⟩
  · rw [turned_system, entries _ fun whole =>
      different (congrArg Prod.snd whole)]
    exact refers
  · rw [turned_point]
    rcases fresh with ⟨only, _⟩ | ⟨nothing, _⟩
    · rw [only, List.mem_singleton]
      exact fun whole => different (congrArg Prod.fst whole)
    · rw [nothing]
      exact List.not_mem_nil

/-- A turn in which descriptors are given up, and the counts still count. -/
theorem turn_lost
    (sound : Sound kernel)
    (entries :
      ∀ slot, system.entry slot = none ∨ system.entry slot = kernel.system.entry slot)
    (others :
      ∀ slot : Nat × Nat, slot.1 ≠ current →
        system.entry slot = kernel.system.entry slot)
    (inodes :
      ∀ other, (system.file other).inode = (kernel.system.file other).inode)
    (counted : system.Counted)
    (tasks : NoMore system)
    (idle : point.held = [])
    (closed : ∀ fd, fd < point.closed → system.entry (current, fd) = none) :
    Turn kernel (kernel.turned current system point put) current := by
  have nothing {pair : Nat × Nat}
      (held :
        pair ∈ ((kernel.turned current system point put).point current).held) :
      False := by
    rw [turned_point, idle] at held
    cases held
  refine ⟨fun slot => turned_points, others, counted, tasks,
    fun held => (nothing held).elim, ?_, ?_, ?_,
    fun held => (nothing held).elim, fun other _ => inodes other⟩
  · rw [turned_point, idle]
    exact List.nodup_nil
  · intro fd below
    rw [turned_point] at below
    exact closed fd below
  · intro fd index refers
    rw [turned_system] at refers
    rcases entries (current, fd) with free | same
    · cases free.symm.trans refers
    · exact Or.inr (sound.open_or_held (same ▸ refers))

/-- The descriptors that are left when one is given up. -/
theorem Detached.entry
    {before after : System} {slot : Nat × Nat} {index : Nat}
    {value : BitVec 16}
    (detached : Detached slot index value before after)
    (other : Nat × Nat) :
    after.entry other = if other = slot then none else before.entry other := by
  rw [detached.entries]
  exact Function.update_apply _ _ _ _

/-- A turn in which one descriptor is given up. -/
theorem turn_detached
    {fd index : Nat} {value : BitVec 16}
    (sound : Sound kernel)
    (detached : Detached (current, fd) index value kernel.system system)
    (counted : system.Counted)
    (idle : point.held = [])
    (closed :
      ∀ fd', fd' < point.closed → fd' ≠ fd →
        kernel.system.entry (current, fd') = none) :
    Turn kernel (kernel.turned current system point put) current := by
  refine turn_lost sound ?_ ?_ detached.inodes counted
    (detached.tasks sound.tasks) idle ?_
  · intro slot
    rw [detached.entry]
    split
    · exact Or.inl rfl
    · exact Or.inr rfl
  · intro slot different
    rw [detached.entry]
    exact if_neg fun same => different (congrArg Prod.fst same)
  · intro fd' below
    rw [detached.entry]
    split
    · rfl
    · rename_i different
      refine closed fd' below ?_
      rintro rfl
      exact different rfl

/-- An open gives back what it has taken. -/
theorem turn_undone
    {fd index : Nat}
    (sound : Sound kernel)
    (detached : Detached (current, fd) index 0#16 kernel.system system)
    (held : (fd, index) ∈ (kernel.point current).held)
    (eax : Int) :
    Sound (kernel.turned current system (.user eax) kernel.put) ∧
      Exact kernel
        (kernel.turned current system (.user eax) kernel.put) := by
  have counted : system.Counted := by
    unfold System.Counted
    rw [detached.entries, detached.counts]
    exact sound.counted.undo (sound.held held) (sound.alone held)
  have turn :
      Turn kernel (kernel.turned current system (.user eax) kernel.put)
        current :=
    turn_detached sound detached counted rfl
      fun _ below => absurd below (Nat.not_lt_zero _)
  refine ⟨turn.sound sound, turn.exact_of_stays sound rfl (turn.stays ?_)⟩
  intro fd' other refers free
  have different : fd' ≠ fd := by
    rintro rfl
    cases refers.symm.trans (sound.held held)
    exact free held
  refine ⟨current, fd', ?_, ?_⟩
  · rw [turned_system, detached.entries,
      Function.update_of_ne fun whole => different (congrArg Prod.snd whole)]
    exact refers
  · rw [turned_point]
    exact List.not_mem_nil

/-- `sys_close` closes a descriptor, and the file with the last one. -/
theorem turn_closed
    {fd index : Nat}
    (sound : Sound kernel)
    (refers : kernel.system.entry (current, fd) = some index)
    (idleBefore : (kernel.point current).held = [])
    (detached :
      Detached (current, fd) index (kernel.system.count index - 1#16)
        kernel.system system)
    (idle : point.held = [])
    (closed :
      ∀ fd', fd' < point.closed → fd' ≠ fd →
        kernel.system.entry (current, fd') = none) :
    let entry :=
      if kernel.system.count index - 1#16 = 0#16 then
        some (index, (kernel.system.file index).inode)
      else none
    Sound
        (kernel.turned current system point (entry.toList ++ kernel.put)) ∧
      Exact kernel
        (kernel.turned current system point (entry.toList ++ kernel.put)) := by
  intro entry
  have counted : system.Counted := by
    unfold System.Counted
    rw [detached.entries, detached.counts]
    exact sound.counted.detach refers
  have turn :
      Turn kernel
        (kernel.turned current system point (entry.toList ++ kernel.put))
        current :=
    turn_detached sound detached counted idle closed
  refine ⟨turn.sound sound, turn.exact sound ⟨entry, rfl, ?_⟩⟩
  have wasOpen : kernel.Open index := sound.isOpen refers idleBefore
  have count : system.count index = kernel.system.count index - 1#16 := by
    rw [detached.counts, Function.update_self]
  -- a descriptor that is left is open, since nobody had taken the entry
  have stillOpen {slot : Nat × Nat} {other : Nat}
      (left : system.entry slot = some other)
      (before : kernel.Open other) :
      (kernel.turned current system point
        (entry.toList ++ kernel.put)).Open other := by
    refine ⟨slot.1, slot.2, left, ?_⟩
    by_cases mine : slot.1 = current
    · rw [mine, turned_point, idle]
      exact List.not_mem_nil
    · rw [(turned_points mine).1]
      exact fun held => sound.not_open held before
  have gone :
      ¬ (kernel.turned current system point
          (entry.toList ++ kernel.put)).Open index ↔
        kernel.system.count index - 1#16 = 0#16 := by
    constructor
    · intro notOpen
      by_contra positive
      rw [← count] at positive
      obtain ⟨slot, left⟩ :=
        counted.used (sound.counted.range _ _ refers).2 positive
      exact notOpen (stillOpen left wasOpen)
    · rintro zero ⟨slot, fd', left, _⟩
      exact counted.unused (count.trans zero) _ left
  intro other number
  have shape :
      entry = some (other, number) ↔
        kernel.system.count index - 1#16 = 0#16 ∧ index = other ∧
          (kernel.system.file index).inode = number := by
    by_cases zero : kernel.system.count index - 1#16 = 0#16
    · simp [entry, zero]
    · simp [entry, zero]
  rw [shape]
  constructor
  · rintro ⟨zero, rfl, rfl⟩
    exact ⟨wasOpen, gone.mpr zero, rfl⟩
  · rintro ⟨before, notOpen, rfl⟩
    by_cases same : index = other
    · subst same
      exact ⟨gone.mp notOpen, rfl, rfl⟩
    · have ⟨slot, fd', refers', _⟩ := before
      have left : system.entry (slot, fd') = some other := by
        rw [detached.entries, Function.update_of_ne]
        · exact refers'
        · rintro whole
          cases whole
          cases refers.symm.trans refers'
          exact same rfl
      exact absurd (stillOpen left before) notOpen

section Pipes

variable {fds indices : Nat × Nat}

theorem counted_attachedBoth
    (sound : Sound kernel)
    (present : current < nrTasks)
    (attached : AttachedBoth current fds indices kernel.system system) :
    system.Counted := by
  obtain ⟨range0, free0⟩ := attached.free fds.1 (Or.inl rfl)
  obtain ⟨range1, free1⟩ := attached.free fds.2 (Or.inr rfl)
  have different : (current, fds.2) ≠ (current, fds.1) :=
    fun same => attached.fds_ne (congrArg Prod.snd same).symm
  have first :=
    sound.counted.attach (mem_descriptors.mpr ⟨present, range0⟩)
      (attached.fresh indices.1 (Or.inl rfl)).1 free0
  have stillFree :
      Function.update kernel.system.entry (current, fds.1) (some indices.1)
        (current, fds.2) = none :=
    (Function.update_of_ne different _ _).trans free1
  have member : (current, fds.2) ∈ descriptors :=
    mem_descriptors.mpr ⟨present, range1⟩
  have second :=
    first.attach member (attached.fresh indices.2 (Or.inr rfl)).1 stillFree
  unfold System.Counted
  rw [attached.entries, attached.counts]
  rwa [Function.update_of_ne attached.indices_ne.symm] at second

/-- The descriptors of `sys_pipe`: the two new ones, and those that were there. -/
theorem entry_attachedBoth
    (attached : AttachedBoth current fds indices kernel.system system)
    (slot : Nat × Nat) :
    system.entry slot =
      if slot = (current, fds.1) then some indices.1
      else if slot = (current, fds.2) then some indices.2
      else kernel.system.entry slot := by
  have different : (current, fds.1) ≠ (current, fds.2) :=
    fun same => attached.fds_ne (congrArg Prod.snd same)
  rw [attached.entries]
  by_cases first : slot = (current, fds.1)
  · rw [if_pos first, first, Function.update_of_ne different, Function.update_self]
  · rw [if_neg first]
    by_cases second : slot = (current, fds.2)
    · rw [if_pos second, second, Function.update_self]
    · rw [if_neg second, Function.update_of_ne second, Function.update_of_ne first]

/-- `sys_pipe` takes two descriptors and two entries. -/
theorem turn_attachedBoth
    (sound : Sound kernel)
    (present : current < nrTasks)
    (attached : AttachedBoth current fds indices kernel.system system)
    (idle : (kernel.point current).held = []) :
    Sound (kernel.turned current system (.piping fds indices) kernel.put) ∧
      Exact kernel
        (kernel.turned current system (.piping fds indices)
          kernel.put) := by
  have entry := entry_attachedBoth attached
  have pair {fd index : Nat}
      (held : (fd, index) ∈ (Point.piping fds indices).held) :
      (fd = fds.1 ∧ index = indices.1) ∨
        (fd = fds.2 ∧ index = indices.2) := by
    simpa [Point.held] using held
  have turn :
      Turn kernel
        (kernel.turned current system (.piping fds indices) kernel.put)
        current := by
    refine ⟨fun slot => turned_points, ?_,
      counted_attachedBoth sound present attached,
      attached.tasks sound.tasks, ?_, ?_, ?_, ?_, ?_,
      fun other _ => attached.inodes other⟩
    · intro slot different
      rw [turned_system, entry, if_neg, if_neg]
      · exact fun same => different (congrArg Prod.fst same)
      · exact fun same => different (congrArg Prod.fst same)
    · intro fd index held
      rw [turned_point] at held
      rw [turned_system, entry]
      rcases pair held with ⟨rfl, rfl⟩ | ⟨rfl, rfl⟩
      · exact if_pos rfl
      · rw [if_neg fun same => attached.fds_ne (congrArg Prod.snd same).symm]
        exact if_pos rfl
    · rw [turned_point]
      simpa [Point.held] using attached.indices_ne
    · intro fd below
      rw [turned_point] at below
      exact absurd below (Nat.not_lt_zero _)
    · intro fd index refers
      rw [turned_system, entry] at refers
      rw [turned_point]
      split at refers
      · rename_i same
        cases same
        cases refers
        exact Or.inl List.mem_cons_self
      · split at refers
        · rename_i same
          cases same
          cases refers
          exact Or.inl (List.mem_cons_of_mem _ List.mem_cons_self)
        · exact Or.inr (Or.inl (sound.isOpen refers idle))
    · intro fd index held
      rw [turned_point] at held
      refine Or.inr (sound.counted.unused (attached.fresh index ?_).2)
      rcases pair held with ⟨_, same⟩ | ⟨_, same⟩
      · exact Or.inl same
      · exact Or.inr same
  refine ⟨turn.sound sound, turn.exact_of_stays sound rfl (turn.stays ?_)⟩
  intro fd index refers _
  have notFirst : fd ≠ fds.1 := by
    rintro rfl
    cases refers.symm.trans (attached.free _ (Or.inl rfl)).2
  have notSecond : fd ≠ fds.2 := by
    rintro rfl
    cases refers.symm.trans (attached.free _ (Or.inr rfl)).2
  refine ⟨current, fd, ?_, ?_⟩
  · rw [turned_system, entry,
      if_neg fun same => notFirst (congrArg Prod.snd same),
      if_neg fun same => notSecond (congrArg Prod.snd same)]
    exact refers
  · rw [turned_point]
    intro held
    rcases pair held with ⟨same, _⟩ | ⟨same, _⟩
    · exact notFirst same
    · exact notSecond same

/-- `sys_pipe` gives both descriptors and both entries back. -/
theorem turn_undoneBoth
    (sound : Sound kernel)
    (detached : DetachedBoth current fds indices kernel.system system)
    (piping : kernel.point current = .piping fds indices)
    (eax : Int) :
    Sound (kernel.turned current system (.user eax) kernel.put) ∧
      Exact kernel
        (kernel.turned current system (.user eax) kernel.put) := by
  have held0 : (fds.1, indices.1) ∈ (kernel.point current).held := by
    rw [piping]
    exact List.mem_cons_self
  have held1 : (fds.2, indices.2) ∈ (kernel.point current).held := by
    rw [piping]
    exact List.mem_cons_of_mem _ List.mem_cons_self
  have fdsNe : (current, fds.2) ≠ (current, fds.1) := by
    intro same
    have distinct := sound.distinct current
    rw [piping] at distinct
    have refers := sound.held held1
    rw [same, sound.held held0] at refers
    simp [Point.held, Option.some.inj refers] at distinct
  have entry (slot : Nat × Nat) :
      system.entry slot =
        if slot = (current, fds.1) ∨ slot = (current, fds.2) then none
        else kernel.system.entry slot := by
    rw [detached.entries]
    by_cases second : slot = (current, fds.2)
    · rw [if_pos (Or.inr second), second, Function.update_self]
    · rw [Function.update_of_ne second]
      by_cases first : slot = (current, fds.1)
      · rw [if_pos (Or.inl first), first, Function.update_self]
      · rw [if_neg (not_or.mpr ⟨first, second⟩), Function.update_of_ne first]
  have counted : system.Counted := by
    unfold System.Counted
    rw [detached.entries, detached.counts]
    refine (sound.counted.undo (sound.held held0)
      (sound.alone held0)).undo ?_ ?_
    · rw [Function.update_of_ne fdsNe]
      exact sound.held held1
    · intro other refers
      by_cases first : other = (current, fds.1)
      · rw [first, Function.update_self] at refers
        cases refers
      · rw [Function.update_of_ne first] at refers
        exact sound.alone held1 other refers
  have turn :
      Turn kernel (kernel.turned current system (.user eax) kernel.put)
        current := by
    refine turn_lost sound ?_ ?_ detached.inodes counted
      (detached.tasks sound.tasks) rfl
      fun _ below => absurd below (Nat.not_lt_zero _)
    · intro slot
      rw [entry]
      split
      · exact Or.inl rfl
      · exact Or.inr rfl
    · intro slot different
      rw [entry, if_neg]
      rintro (rfl | rfl)
      · exact different rfl
      · exact different rfl
  refine ⟨turn.sound sound, turn.exact_of_stays sound rfl (turn.stays ?_)⟩
  intro fd index refers free
  refine ⟨current, fd, ?_, ?_⟩
  · rw [turned_system, entry, if_neg]
    · exact refers
    · rintro (same | same)
      · rw [same, sound.held held0] at refers
        cases refers
        cases same
        exact free held0
      · rw [same, sound.held held1] at refers
        cases refers
        cases same
        exact free held1
  · rw [turned_point]
    exact List.not_mem_nil

end Pipes

/-- A fork, as a turn of the child. -/
theorem turn_forked
    {slot : Nat}
    (sound : Sound kernel)
    (forked : Copied current slot kernel.system system)
    (counted : system.Counted)
    (tasks : NoMore system)
    (present : kernel.system.task current ≠ none)
    (idle : (kernel.point current).held = [])
    (closed : (kernel.point current).closed = 0)
    (eax : Int) :
    let child := kernel.turned slot system (.user 0) kernel.put
    let after := child.turned current system (.user eax) kernel.put
    Sound after ∧ Exact kernel after := by
  intro child after
  have different : slot ≠ current := by
    rintro rfl
    exact present forked.free
  have parentPoint : after.point current = .user eax := turned_point
  have childPoint : after.point slot = .user 0 := by
    change Function.update _ current _ slot = _
    rw [Function.update_of_ne different]
    exact turned_point
  have nothing {pair : Nat × Nat} (held : pair ∈ (after.point slot).held) :
      False := by
    rw [childPoint] at held
    cases held
  have turn : Turn kernel after slot := by
    refine ⟨?_, ?_, counted, tasks, fun held => (nothing held).elim, ?_, ?_,
      ?_, fun held => (nothing held).elim, fun other _ => forked.inodes other⟩
    · intro other notChild
      by_cases same : other = current
      · subst same
        rw [idle, closed, parentPoint]
        exact ⟨rfl, rfl⟩
      · have first :
            (after.point other).held = (child.point other).held ∧
              (after.point other).closed = (child.point other).closed :=
          turned_points same
        have second :
            (child.point other).held = (kernel.point other).held ∧
              (child.point other).closed = (kernel.point other).closed :=
          turned_points notChild
        exact ⟨first.1.trans second.1, first.2.trans second.2⟩
    · intro other notChild
      exact (forked.entries other).trans (if_neg notChild)
    · rw [childPoint]
      exact List.nodup_nil
    · intro fd below
      rw [childPoint] at below
      exact absurd below (Nat.not_lt_zero _)
    · intro fd index refers
      have copied : kernel.system.entry (current, fd) = some index := by
        rw [← refers]
        exact ((forked.entries (slot, fd)).trans (if_pos rfl)).symm
      exact Or.inr (Or.inl (sound.isOpen copied idle))
  refine ⟨turn.sound sound, turn.exact_of_stays sound rfl (turn.stays ?_)⟩
  intro fd index refers _
  have free : kernel.system.entry (slot, fd) = none := by
    unfold System.entry System.filp
    rw [forked.free]
    rfl
  cases refers.symm.trans free

end Turns

end Files

end HitOs
