import HitOs.DirectoryMaps

namespace HitOs

/-!
# Directories as finite maps over whole runs

`find_entry`, `add_entry` with the store of its caller, and the removal of an
entry, on one directory, one call after the other, and the same calls on a map
from names to entries.
-/

namespace Zones

open Routine

/-- Calls on one directory. -/
inductive DirCall where
  | find (name : List UInt8)
  | add (name : List UInt8) (inode : Nat)
  | remove (name : List UInt8)
  deriving Repr, DecidableEq

namespace DirCall

def name : DirCall → List UInt8
  | find name => name
  | add name _ => name
  | remove name => name

/-- The call may change what its name is bound to. -/
def Changes : DirCall → Prop
  | find _ => False
  | add _ _ => True
  | remove _ => True

/-- The call with what its callers do with the entry. -/
def perform
    (sb : SuperBlock)
    (dir : Nat) :
    DirCall → Routine Fs (Option Binding)
  | find name => do
      match ← findEntry sb dir name with
      | none => pure none
      | some (bh, de) =>
        let fs ← read
        brelse bh
        pure (some
          { place := (bh, de), inode := entryInode (fs.data bh) de })
  | add name inode => do
      match ← addEntry sb dir name with
      | none => pure none
      | some (bh, de) =>
        update (setEntryInode bh de inode)
        brelse bh
        pure (some { place := (bh, de), inode := inode })
  | remove name => do
      match ← findEntry sb dir name with
      | none => pure none
      | some (bh, de) =>
        let fs ← read
        update (setEntryInode bh de 0)
        brelse bh
        pure (some
          { place := (bh, de), inode := entryInode (fs.data bh) de })

/-- Callers store numbers of inodes, and add only names that are not found. -/
def Allowed
    (sb : SuperBlock)
    (dir : Nat)
    (fs : Fs) :
    DirCall → Prop
  | find _ => True
  | add name inode =>
    inode ≠ 0 ∧ inode < 65536 ∧ ∃ after, findEntry sb dir name fs = .ret none after
  | remove _ => True

end DirCall

/-- The name `..`, which `find_entry` redirects. -/
def dotDot : List UInt8 :=
  [46, 46]

/-- A call, its entry, and whether `add_entry` had no place for an entry. -/
structure DirEvent where
  call : DirCall
  result : Option Binding
  stuck : Prop

/-- A call on the directory that returned. -/
structure DirStep
    (sb : SuperBlock)
    (dir : Nat)
    (event : DirEvent)
    (before after : Fs) : Prop where
  noZero :
    0 ∉ event.call.name
  notDotDot :
    event.call.name ≠ dotDot
  allowed :
    event.call.Allowed sb dir before
  outcome :
    event.call.perform sb dir before = .ret event.result after
  stuck :
    event.stuck ↔ after.Full sb ∨ after.zoneAt dir (pathOf 0) = 0

/-- The call on a map from names to entries. -/
inductive MapStep :
    DirEvent → (Name → Option Binding) → (Name → Option Binding) → Prop where
  | noName
      {bindings : Name → Option Binding}
      {call : DirCall} {stuck : Prop}
      (empty : call.name = []) :
      MapStep { call := call, result := none, stuck := stuck }
        bindings bindings
  | find
      {bindings : Name → Option Binding}
      {raw : List UInt8} {name : Name} {stuck : Prop}
      (cut : raw.take nameLen = name.val) :
      MapStep
        { call := .find raw, result := bindings name, stuck := stuck }
        bindings bindings
  | add
      {bindings : Name → Option Binding}
      {raw : List UInt8} {name : Name} {binding : Binding} {stuck : Prop}
      (cut : raw.take nameLen = name.val)
      (fresh : bindings name = none)
      (unused :
        ∀ other bound, bindings other = some bound → bound.place ≠ binding.place) :
      MapStep
        { call := .add raw binding.inode
          result := some binding
          stuck := stuck }
        bindings (Function.update bindings name (some binding))
  | addFailed
      {bindings : Name → Option Binding}
      {raw : List UInt8} {name : Name} {inode : Nat} {stuck : Prop}
      (cut : raw.take nameLen = name.val)
      (fresh : bindings name = none)
      (reason : stuck) :
      MapStep
        { call := .add raw inode, result := none, stuck := stuck }
        bindings bindings
  | remove
      {bindings : Name → Option Binding}
      {raw : List UInt8} {name : Name} {stuck : Prop}
      (cut : raw.take nameLen = name.val) :
      MapStep
        { call := .remove raw, result := bindings name, stuck := stuck }
        bindings (Function.update bindings name none)

variable {sb : SuperBlock} {fs middle after start : Fs}
variable {dir entry inode : Nat} {name : Name} {raw : List UInt8}

/-- A directory whose names are bound once. -/
structure Sound (sb : SuperBlock) (fs : Fs) (dir : Nat) : Prop where
  directory :
    IsDirectory sb fs dir
  unique :
    fs.Unique dir

/-- The name that a path component stands for. -/
theorem exists_name
    (noZero : 0 ∉ raw)
    (notEmpty : raw ≠ []) :
    ∃ name : Name, raw.take nameLen = name.val := by
  refine ⟨⟨raw.take nameLen, ?_, ?_, ?_⟩, rfl⟩
  · intro empty
    rcases List.take_eq_nil_iff.mp empty with impossible | empty
    · exact absurd impossible (by decide)
    · exact notEmpty empty
  · exact fun member => noZero (List.mem_of_mem_take member)
  · rw [List.length_take]
    exact Nat.min_le_left _ _

/-- What a search says about the map. -/
theorem Found.bindings
    {result : Option (Nat × Nat)}
    (found : Found fs dir name.val 0 result after)
    (unique : fs.Unique dir) :
    match result with
    | none =>
      after = fs ∧ fs.bindings dir name = none
    | some place =>
      ∃ entry, entry < fs.entryCount dir ∧
        place = fs.place dir entry ∧ (fs.place dir entry).1 ≠ 0 ∧
          after = fs.hold (fs.place dir entry).1 ∧
            matchEntry name.val (fs.entries dir) entry = true ∧
              fs.bindings dir name = some (fs.binding dir entry) := by
  cases found with
  | missing others =>
    exact ⟨rfl, bindings_eq_none fun entry upper =>
      others entry (Nat.zero_le _) upper⟩
  | found lower upper present matched others =>
    exact ⟨_, upper, rfl, present, rfl, matched,
      (bindings_eq_some_iff unique).mpr ⟨_, upper, matched, rfl⟩⟩

theorem take_ne_nil
    (cut : raw.take nameLen = name.val) :
    raw.take nameLen ≠ [] := by
  rw [cut]
  exact name.property.notEmpty

/-- The number that a caller reads in the entry. -/
theorem entryInode_place
    (directory : IsDirectory sb fs dir)
    (upper : entry < fs.entryCount dir)
    (present : (fs.place dir entry).1 ≠ 0) :
    entryInode (fs.data (fs.place dir entry).1)
        (fs.place dir entry).2 =
      entryInode (fs.entries dir) entry := by
  rw [entryInode_entries directory.file
    (lt_maxSize_of_lt directory.fits upper), blockAt_of_present present]
  rfl

theorem find_refines
    (sound : Sound sb fs dir)
    (cut : raw.take nameLen = name.val) :
    ((DirCall.find raw).perform sb dir).Satisfies fs
      (fun result after => result = fs.bindings dir name ∧ after = fs)
      (fun _ => False) := by
  refine (satisfies_findEntry sound.directory
    (take_ne_nil cut)).andThen ?_
  intro result after found
  rw [cut] at found
  have bound := found.bindings sound.unique
  match result with
  | none =>
    obtain ⟨rfl, missing⟩ := bound
    exact ⟨missing.symm, rfl⟩
  | some _ =>
    obtain ⟨entry, upper, rfl, present, rfl, _, bound⟩ := bound
    change Satisfies (read >>= fun held =>
      brelse (fs.place dir entry).1 >>= fun _ =>
        pure (some (Binding.mk (fs.place dir entry)
          (entryInode (held.data (fs.place dir entry).1)
            (fs.place dir entry).2)))) _ _ _
    rw [satisfies_bind, satisfies_read,
      satisfies_bind_of_ret brelse_hold, satisfies_pure, bound]
    refine ⟨?_, rfl⟩
    change some (Binding.mk (fs.place dir entry)
      (entryInode (fs.data (fs.place dir entry).1)
        (fs.place dir entry).2)) = _
    rw [entryInode_place sound.directory upper present]
    rfl

theorem remove_refines
    (sound : Sound sb fs dir)
    (cut : raw.take nameLen = name.val) :
    ((DirCall.remove raw).perform sb dir).Satisfies fs
      (fun result after =>
        result = fs.bindings dir name ∧ Sound sb after dir ∧
          after.bindings dir = Function.update (fs.bindings dir) name none)
      (fun _ => False) := by
  refine (satisfies_findEntry sound.directory
    (take_ne_nil cut)).andThen ?_
  intro result after found
  rw [cut] at found
  have bound := found.bindings sound.unique
  match result with
  | none =>
    obtain ⟨rfl, missing⟩ := bound
    refine ⟨missing.symm, sound, ?_⟩
    rw [← missing, Function.update_eq_self]
  | some _ =>
    obtain ⟨entry, upper, rfl, present, rfl, matched, bound⟩ := bound
    change Satisfies (read >>= fun held =>
      update (setEntryInode (fs.place dir entry).1
          (fs.place dir entry).2 0) >>= fun _ =>
        brelse (fs.place dir entry).1 >>= fun _ =>
          pure (some (Binding.mk (fs.place dir entry)
            (entryInode (held.data (fs.place dir entry).1)
              (fs.place dir entry).2)))) _ _ _
    have stored :
        setEntryInode (fs.place dir entry).1 (fs.place dir entry).2 0
            (fs.hold (fs.place dir entry).1) =
          (fs.withoutEntry dir entry).hold (fs.place dir entry).1 := by
      unfold setEntryInode Fs.withoutEntry
      rw [← setWord_zero]
      rfl
    obtain ⟨directory, removed⟩ :=
      removed_withoutEntry sound.directory upper present
    rw [satisfies_bind, satisfies_read, satisfies_bind,
      satisfies_update, stored, satisfies_bind_of_ret brelse_hold,
      satisfies_pure, bound]
    refine ⟨?_, ⟨directory, removed.unique sound.unique⟩,
      removed.bindings sound.unique upper matched⟩
    change some (Binding.mk (fs.place dir entry)
      (entryInode (fs.data (fs.place dir entry).1)
        (fs.place dir entry).2)) = _
    rw [entryInode_place sound.directory upper present]
    rfl

/-- A name that is not found is not bound. -/
theorem bindings_eq_none_of_find
    (sound : Sound sb fs dir)
    (cut : raw.take nameLen = name.val)
    (missing : findEntry sb dir raw fs = .ret none after) :
    fs.bindings dir name = none := by
  have found :=
    (satisfies_findEntry sound.directory (take_ne_nil cut)).of_ret missing
  rw [cut] at found
  exact (found.bindings sound.unique).2

/-- What the store of the caller into a new entry does to the map. -/
inductive AddOutcome
    (sb : SuperBlock)
    (fs : Fs)
    (dir inode : Nat)
    (name : Name) :
    Option Binding → Fs → Prop where
  | failed
      {after : Fs}
      (sound : Sound sb after dir)
      (same : after.bindings dir = fs.bindings dir)
      (reason : after.Full sb ∨ after.zoneAt dir (pathOf 0) = 0) :
      AddOutcome sb fs dir inode name none after
  | bound
      {after : Fs} {place : Nat × Nat}
      (sound : Sound sb after dir)
      (changed :
        after.bindings dir =
          Function.update (fs.bindings dir) name
            (some { place := place, inode := inode }))
      (unused :
        ∀ other binding, fs.bindings dir other = some binding → binding.place ≠ place) :
      AddOutcome sb fs dir inode name
        (some { place := place, inode := inode }) after

/-- Filling slots is invisible in a directory. -/
theorem IsDirectory.extended
    (directory : IsDirectory sb fs dir)
    (consistent : Consistent sb after)
    (extension : Extends fs after) :
    IsDirectory sb after dir where
  consistent := consistent
  idle := by
    rw [extension.count]
    exact directory.idle
  isDir := by
    rw [extension.mode]
    exact directory.isDir
  whole := by
    rw [extension.size]
    exact directory.whole
  fits := by
    rw [extension.size]
    exact directory.fits
  first := by
    rw [extension.size]
    intro absent
    apply directory.first
    by_contra present
    rw [extension.kept dir _ ⟨directory.file,
      (isLeaf_pathOf (show 0 < _ by decide)).isPath⟩ present] at absent
    exact present absent

theorem Extends.entryCount
    (extension : Extends fs after) :
    after.entryCount dir = fs.entryCount dir := by
  unfold Fs.entryCount
  rw [extension.size]

theorem Extends.binding
    (directory : IsDirectory sb fs dir)
    (extension : Extends fs after)
    (upper : entry < fs.entryCount dir)
    (live : entryInode (fs.entries dir) entry ≠ 0) :
    after.binding dir entry = fs.binding dir entry := by
  have inside := lt_maxSize_of_lt directory.fits upper
  unfold Fs.binding Fs.place
  rw [extension.entries, extension.kept dir _ ⟨directory.file,
    (isLeaf_pathOf (entry_lt_of_lt inside)).isPath⟩
    (present_of_live directory.file inside live)]

theorem Sound.extended
    (sound : Sound sb fs dir)
    (consistent : Consistent sb after)
    (extension : Extends fs after) :
    Sound sb after dir ∧ after.bindings dir = fs.bindings dir := by
  have unique : after.Unique dir := by
    unfold Fs.Unique
    rw [extension.entryCount, extension.entries]
    exact sound.unique
  refine ⟨⟨sound.directory.extended consistent extension, unique⟩, ?_⟩
  funext name
  ext binding
  rw [bindings_eq_some_iff unique, bindings_eq_some_iff sound.unique]
  unfold Fs.Binds
  rw [extension.entryCount, extension.entries]
  constructor
  · rintro ⟨entry, upper, matched, rfl⟩
    exact ⟨entry, upper, matched, extension.binding sound.directory upper
      (matchEntry_live matched)⟩
  · rintro ⟨entry, upper, matched, rfl⟩
    exact ⟨entry, upper, matched, (extension.binding sound.directory upper
      (matchEntry_live matched)).symm⟩

/-- Different entries are in different places. -/
theorem place_inj
    {other : Nat}
    (consistent : Consistent sb fs)
    (file : fs.IsFile dir)
    (inside : entrySize * entry < maxSize)
    (otherInside : entrySize * other < maxSize)
    (present : (fs.place dir entry).1 ≠ 0)
    (same : fs.place dir entry = fs.place dir other) :
    entry = other := by
  obtain ⟨zones, offsets⟩ := Prod.mk.injEq .. ▸ same
  have blocks : pathOf (entry / entriesPerBlock) =
      pathOf (other / entriesPerBlock) :=
    (consistent.unique _ _ _ _
      ⟨file, (isLeaf_pathOf (entry_lt_of_lt inside)).isPath⟩
      ⟨file, (isLeaf_pathOf (entry_lt_of_lt otherInside)).isPath⟩
      present zones).2
  have numbers := pathOf_inj blocks
  rw [← Nat.div_add_mod entry entriesPerBlock,
    ← Nat.div_add_mod other entriesPerBlock, numbers, offsets]

theorem add_refines
    (sound : Sound sb fs dir)
    (cut : raw.take nameLen = name.val)
    (live : inode ≠ 0)
    (small : inode < 65536)
    (missing : fs.bindings dir name = none) :
    ((DirCall.add raw inode).perform sb dir).Ensures fs
      (AddOutcome sb fs dir inode name) := by
  refine (ensures_addEntry sound.directory (take_ne_nil cut)).andThen ?_
  rintro result after ⟨added, starts⟩
  rw [cut] at added
  cases added with
  | full consistent extension reason =>
    obtain ⟨sound', same⟩ := sound.extended consistent extension
    exact ensures_pure (.failed sound' same reason)
  | added consistent extension inside atMost present free stored =>
    rename_i middle entry
    have started : fs.zoneAt dir (pathOf 0) ≠ 0 :=
      fun absent => Option.some_ne_none _ (starts absent)
    obtain ⟨directory, inserted⟩ :
        IsDirectory sb (middle.withEntry dir entry inode name.val) dir ∧
          Inserted fs dir entry inode name.val
            (middle.withEntry dir entry inode name.val) :=
      inserted_withEntry sound.directory consistent extension started
        inside atMost present free
    have file : middle.IsFile dir :=
      extension.isFile.mpr sound.directory.file
    have place :
        (middle.withEntry dir entry inode name.val).place dir entry =
          middle.place dir entry := by
      unfold Fs.place
      rw [zoneAt_withEntry consistent file inside present
        ⟨file, (isLeaf_pathOf (entry_lt_of_lt inside)).isPath⟩]
    have changed :=
      inserted.bindings live small sound.unique missing
    rw [place] at changed
    have outcome :
        (update (setEntryInode (middle.place dir entry).1
            (middle.place dir entry).2 inode) >>= fun _ =>
          brelse (middle.place dir entry).1 >>= fun _ =>
            pure (some (Binding.mk (middle.place dir entry) inode)) :
              Routine Fs (Option Binding)).Ensures after
          (AddOutcome sb fs dir inode name) := by
      rw [ensures_update_bind, stored]
      have released :
          (brelse (middle.place dir entry).1).Ensures
            ((middle.withEntry dir entry inode name.val).hold
              (middle.place dir entry).1)
            (fun _ after =>
              after = middle.withEntry dir entry inode name.val) := by
        intro _ _ outcome
        rw [brelse_hold] at outcome
        cases outcome
        rfl
      refine released.andThen ?_
      rintro _ _ rfl
      refine ensures_pure (.bound
        ⟨directory, inserted.unique live small sound.unique missing⟩
        changed ?_)
      intro other binding bound same
      rw [bindings_eq_some_iff sound.unique] at bound
      obtain ⟨old, upper, matched, rfl⟩ := bound
      have oldInside := lt_maxSize_of_lt sound.directory.fits upper
      have oldPresent :=
        present_of_live sound.directory.file oldInside
          (matchEntry_live matched)
      have kept : middle.place dir old = fs.place dir old := by
        unfold Fs.place
        rw [extension.kept dir _ ⟨sound.directory.file,
          (isLeaf_pathOf (entry_lt_of_lt oldInside)).isPath⟩ oldPresent]
      have equal : old = entry :=
        place_inj consistent file oldInside inside
          (kept ▸ oldPresent) (kept.trans same)
      subst equal
      exact matchEntry_live matched (inserted.free upper)
    exact outcome

/-! ## Runs -/

/-- The empty name is never found and never added. -/
theorem perform_noName
    (call : DirCall)
    (empty : call.name = []) :
    call.perform sb dir fs = .ret none fs := by
  cases call with
  | find name =>
    change name = [] at empty
    subst empty
    rfl
  | add name inode =>
    change name = [] at empty
    subst empty
    rfl
  | remove name =>
    change name = [] at empty
    subst empty
    rfl

theorem DirStep.refines
    {event : DirEvent}
    (sound : Sound sb fs dir)
    (step : DirStep sb dir event fs after) :
    Sound sb after dir ∧
      MapStep event (fs.bindings dir) (after.bindings dir) := by
  obtain ⟨noZero, _, allowed, outcome, stuck⟩ := step
  obtain ⟨call, result, stuckThen⟩ := event
  simp only at noZero allowed outcome stuck
  by_cases empty : call.name = []
  · rw [perform_noName call empty] at outcome
    cases outcome
    exact ⟨sound, .noName empty⟩
  · obtain ⟨name, cut⟩ := exists_name noZero empty
    cases call with
    | find raw =>
      obtain ⟨rfl, rfl⟩ := (find_refines sound cut).of_ret outcome
      exact ⟨sound, .find cut⟩
    | add raw inode =>
      obtain ⟨live, small, _, missing⟩ := allowed
      have cut : raw.take nameLen = name.val := cut
      have fresh := bindings_eq_none_of_find sound cut missing
      have added :=
        add_refines sound cut live small fresh result after outcome
      cases added with
      | failed sound' same reason =>
        rw [same]
        exact ⟨sound', .addFailed cut fresh (stuck.mpr reason)⟩
      | @bound _ place sound' changed unused =>
        rw [changed]
        exact ⟨sound', @MapStep.add _ raw name ⟨place, inode⟩ _ cut
          fresh unused⟩
    | remove raw =>
      obtain ⟨rfl, sound', changed⟩ :=
        (remove_refines sound cut).of_ret outcome
      rw [changed]
      exact ⟨sound', .remove cut⟩

/-- A step leaves the other names alone. -/
theorem MapStep.frame
    {event : DirEvent} {bindings bindings' : Name → Option Binding}
    (step : MapStep event bindings bindings')
    (untouched :
      ¬ (event.call.Changes ∧ event.call.name.take nameLen = name.val)) :
    bindings' name = bindings name := by
  cases step with
  | noName _ =>
    rfl
  | find _ =>
    rfl
  | add cut _ _ =>
    refine Function.update_of_ne ?_ _ _
    rintro rfl
    exact untouched ⟨trivial, cut⟩
  | addFailed _ _ _ =>
    rfl
  | remove cut =>
    refine Function.update_of_ne ?_ _ _
    rintro rfl
    exact untouched ⟨trivial, cut⟩

theorem mapRun_frame
    {events : List DirEvent} {bindings bindings' : Name → Option Binding}
    (run : Traces MapStep events bindings bindings')
    (untouched :
      ∀ event ∈ events,
        ¬ (event.call.Changes ∧ event.call.name.take nameLen = name.val)) :
    bindings' name = bindings name := by
  induction run with
  | done _ =>
    rfl
  | next stepped _ inductionHypothesis =>
    rw [inductionHypothesis fun event member =>
        untouched event (List.mem_cons_of_mem _ member),
      stepped.frame (untouched _ List.mem_cons_self)]

theorem dirRun_refines
    {events : List DirEvent}
    (sound : Sound sb start dir)
    (run : Traces (DirStep sb dir) events start fs) :
    Sound sb fs dir ∧
      Traces MapStep events (start.bindings dir) (fs.bindings dir) := by
  induction run with
  | done state =>
    exact ⟨sound, .done _⟩
  | next stepped _ inductionHypothesis =>
    obtain ⟨sound', mapStep⟩ := stepped.refines sound
    obtain ⟨last, rest⟩ := inductionHypothesis sound'
    exact ⟨last, .next mapStep rest⟩

/--
Every run of calls on a directory is a run on a map from names to entries, with
the same results; at its end no two entries match one name, names that no call
changed are bound as they were, and searches and removals return.
-/
theorem directories_are_maps
    {events : List DirEvent}
    (sound : Sound sb start dir)
    (run : Traces (DirStep sb dir) events start fs) :
    Traces MapStep events (start.bindings dir) (fs.bindings dir) ∧
    fs.Unique dir ∧
    (∀ name : Name,
      (∀ event ∈ events,
        ¬ (event.call.Changes ∧ event.call.name.take nameLen = name.val)) →
        fs.bindings dir name = start.bindings dir name) ∧
    ∀ (raw : List UInt8) (name : Name), raw.take nameLen = name.val →
      (DirCall.find raw).perform sb dir fs = .ret (fs.bindings dir name) fs ∧
      ∃ after, (DirCall.remove raw).perform sb dir fs =
        .ret (fs.bindings dir name) after := by
  obtain ⟨last, refines⟩ := dirRun_refines sound run
  refine ⟨refines, last.unique, ?_, ?_⟩
  · intro name untouched
    exact mapRun_frame refines untouched
  · intro raw name cut
    obtain ⟨_, _, finds, rfl, rfl⟩ := (find_refines last cut).returns
    obtain ⟨_, after, removes, rfl, _⟩ :=
      (remove_refines last cut).returns
    exact ⟨finds, after, removes⟩

/-! ## A name that is added and found -/

/-- The first entry of an empty directory. -/
theorem addEntry_first
    (empty : (fs.inode dir).size = 0)
    (started : (fs.inode dir).zone 0 ≠ 0)
    (notEmpty : raw.take nameLen ≠ []) :
    ∃ after, addEntry sb dir raw fs =
      .ret (some ((fs.inode dir).zone 0, 0)) after ∧
        after.count ((fs.inode dir).zone 0) =
          fs.count ((fs.inode dir).zone 0) + 1 := by
  unfold addEntry
  simp only
  rw [if_neg notEmpty, bind_of_ret (rfl : read fs = .ret fs fs),
    if_neg started, empty, addLoop]
  exact ⟨_, rfl, setCount_count _⟩

/-- A name that is added to an empty directory, and then found. -/
theorem run_add_find
    (sound : Sound sb start dir)
    (cut : raw.take nameLen = name.val)
    (noZero : 0 ∉ raw)
    (notDotDot : raw ≠ dotDot)
    (empty : (start.inode dir).size = 0)
    (started : (start.inode dir).zone 0 ≠ 0)
    (live : inode ≠ 0)
    (small : inode < 65536) :
    ∃ events fs binding,
      events.map DirEvent.call = [.add raw inode, .find raw] ∧
      events.map DirEvent.result = [some binding, some binding] ∧
      Traces (DirStep sb dir) events start fs := by
  have noEntries : start.entryCount dir = 0 := by
    unfold Fs.entryCount
    rw [empty]
    rfl
  have fresh : start.bindings dir name = none := by
    apply bindings_eq_none
    intro entry upper
    rw [noEntries] at upper
    exact absurd upper (Nat.not_lt_zero entry)
  have missing : ∃ after, findEntry sb dir raw start = .ret none after := by
    obtain ⟨result, after, finds, found⟩ :=
      (satisfies_findEntry sound.directory (take_ne_nil cut)).returns
    rw [cut] at found
    cases found with
    | missing _ =>
      exact ⟨_, finds⟩
    | found _ upper _ _ _ =>
      rw [noEntries] at upper
      exact absurd upper (Nat.not_lt_zero _)
  obtain ⟨held, adds, reference⟩ :
      ∃ held, addEntry sb dir raw start =
        .ret (some ((start.inode dir).zone 0, 0)) held ∧
          held.count ((start.inode dir).zone 0) =
            start.count ((start.inode dir).zone 0) + 1 :=
    addEntry_first empty started (take_ne_nil cut)
  have released :
      brelse ((start.inode dir).zone 0)
          (setEntryInode ((start.inode dir).zone 0) 0 inode held) =
        .ret () ((setEntryInode ((start.inode dir).zone 0) 0 inode
          held).setCount ((start.inode dir).zone 0)
            (start.count ((start.inode dir).zone 0))) :=
    brelse_of_succ reference
  have performs :
      (DirCall.add raw inode).perform sb dir start =
        .ret (some (Binding.mk ((start.inode dir).zone 0, 0) inode))
          ((setEntryInode ((start.inode dir).zone 0) 0 inode
            held).setCount ((start.inode dir).zone 0)
              (start.count ((start.inode dir).zone 0))) := by
    change (addEntry sb dir raw >>= _) start = _
    rw [bind_of_ret adds]
    change (brelse ((start.inode dir).zone 0) >>= _)
      (setEntryInode ((start.inode dir).zone 0) 0 inode held) = _
    rw [bind_of_ret released]
    rfl
  have added :=
    add_refines sound cut live small fresh _ _ performs
  generalize (setEntryInode ((start.inode dir).zone 0) 0 inode
    held).setCount ((start.inode dir).zone 0)
      (start.count ((start.inode dir).zone 0)) = middle at performs added
  cases added with
  | bound sound' changed _ =>
    obtain ⟨_, _, finds, rfl, rfl⟩ :=
      (find_refines sound' cut).returns
    rw [changed, Function.update_self] at finds
    exact ⟨[⟨.add raw inode, some _, _⟩, ⟨.find raw, some _, _⟩], _, _,
      rfl, rfl,
      .next ⟨noZero, notDotDot, ⟨live, small, missing⟩, performs,
        Iff.rfl⟩
        (.next ⟨noZero, notDotDot, trivial, finds, Iff.rfl⟩ (.done _))⟩

/-- A directory with one block and no entries. -/
def emptyDir : Fs :=
  (emptyFs 0o040000).fill smallSuper 0 [0] 3

theorem emptyDir_sound : Sound smallSuper emptyDir 0 := by
  have directory : IsDirectory smallSuper emptyDir 0 := {
    consistent := emptyFs_fill_consistent (by decide)
    idle := fun _ _ => rfl
    isDir := by
      change isDir 0o040000 = true
      decide
    whole := ⟨0, rfl⟩
    fits := Nat.zero_le _
    first := fun _ => rfl }
  refine ⟨directory, ?_⟩
  intro _ entry _ _ upper
  exact absurd upper (Nat.not_lt_zero entry)

theorem directories_are_maps_add :
    ∃ events fs binding,
      events.map DirEvent.call = [.add [97] 5, .find [97]] ∧
      events.map DirEvent.result = [some binding, some binding] ∧
      Traces (DirStep smallSuper 0) events emptyDir fs ∧
      Traces MapStep events (emptyDir.bindings 0) (fs.bindings 0) := by
  have isName : IsName [97] :=
    ⟨by decide, by decide, by decide⟩
  have cut : ([97] : List UInt8).take nameLen =
      (⟨[97], isName⟩ : Name).val :=
    rfl
  have started : (emptyDir.inode 0).zone 0 ≠ 0 := by
    change (3 : Nat) ≠ 0
    decide
  obtain ⟨events, fs, binding, calls, results, run⟩ :=
    run_add_find emptyDir_sound cut (by decide) (by decide) rfl started
      (show 5 ≠ 0 by decide) (by decide)
  exact ⟨events, fs, binding, calls, results, run,
    (directories_are_maps emptyDir_sound run).1⟩

end Zones

end HitOs
