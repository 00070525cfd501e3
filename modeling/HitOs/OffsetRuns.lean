import HitOs.FileOffsets

namespace HitOs

/-!
# Runs of seeks, reads and writes

Positions stay positive, and no block beyond the limit of `_bmap` is asked for, in
every run whose reads and writes end before that limit.
-/

namespace FileOffsets

open Routine Zones

/-- A call with its arguments, and with what the device can read while it runs. -/
inductive Call where
  | lseek (fd : Nat) (offset : Int) (origin : Nat)
  | read (fd : Nat) (count : Int) (readable : Int → Nat → Bool)
  | write
      (fd : Nat) (bytes : Nat → UInt8) (count : Int)
      (readable : Int → Nat → Bool)

/-- The arguments are words of 32 bits. -/
def Call.Fits : Call → Prop
  | .lseek _ offset _ => HitOs.Fits offset
  | .read _ count _ => HitOs.Fits count
  | .write _ _ count _ => HitOs.Fits count

/-- The call keeps to the blocks that `_bmap` can number. -/
def Call.Safe (sb : SuperBlock) (session : Session) : Call → Prop
  | .lseek _ _ _ => True
  | .read fd count _ =>
    ∀ index, session.opened fd = some index → 0 < count →
      0 < (session.file index).clipped session.fs count →
        (session.file index).pos +
          (session.file index).clipped session.fs count ≤ maxSize
  | .write fd _ count _ =>
    ∀ index, session.opened fd = some index → 0 < count →
      0 ≤ (session.file index).start session.fs ∧
        Stays sb session.fs (session.file index).inode
          ((session.file index).start session.fs).toNat count.toNat

def Call.perform
    (near : Neighbours)
    (sb : SuperBlock)
    (dev : Nat) :
    Call → Routine Session Unit
  | .lseek fd offset origin => do
      let _ ← sysLseek dev fd offset origin
  | .read fd count readable => do
      let _ ← sysRead near sb readable fd count
  | .write fd bytes count readable => do
      let _ ← sysWrite near sb readable fd bytes count

/-- Regular files are open, at positions that are not negative. -/
structure Session.Sound (sb : SuperBlock) (session : Session) : Prop where
  consistent :
    Consistent sb session.fs
  regular :
    ∀ fd index, session.opened fd = some index →
      isReg (session.fs.inode (session.file index).inode).mode = true
  size :
    ∀ fd index, session.opened fd = some index →
      (session.fs.inode (session.file index).inode).size < 2 ^ 32
  pos :
    ∀ fd index, session.opened fd = some index → IsPosition (session.file index).pos

/-- A process that makes these calls, in any order. -/
def machine (near : Neighbours) (sb : SuperBlock) (dev : Nat) :
    Machine Session Call where
  initial :=
    Session.Sound sb
  enabled call session :=
    call.Fits ∧ call.Safe sb session
  perform :=
    Call.perform near sb dev

variable {near : Neighbours} {sb : SuperBlock} {dev : Nat}
variable {session : Session}

namespace Session.Sound

theorem isFile
    {fd index : Nat}
    (sound : session.Sound sb)
    (opened : session.opened fd = some index) :
    session.fs.IsFile (session.file index).inode := by
  unfold Fs.IsFile
  rw [sound.regular fd index opened]
  rfl

/-- What a call on an open file leaves. -/
theorem onFile
    {index : Nat} {after : Fs} {file : OpenFile}
    (sound : session.Sound sb)
    (kept : Kept sb session.fs after)
    (same : file.inode = (session.file index).inode)
    (position : IsPosition file.pos) :
    ((session.setFs after).setFile index file).Sound sb := by
  have inode :
      ∀ other,
        (((session.setFs after).setFile index file).file other).inode =
          (session.file other).inode := by
    intro other
    change (Function.update session.file index file other).inode = _
    by_cases this : other = index
    · rw [this, Function.update_self, same]
    · rw [Function.update_of_ne this]
  constructor
  case consistent =>
    exact kept.consistent
  case regular =>
    intro fd' other opened'
    rw [inode]
    change isReg (after.inode _).mode = true
    rw [kept.mode]
    exact sound.regular fd' other opened'
  case size =>
    intro fd' other opened'
    rw [inode]
    have before := sound.size fd' other opened'
    have later := kept.size (session.file other).inode
    have limit : maxSize < 2 ^ 32 := by
      decide
    exact Nat.lt_of_le_of_lt later (Nat.max_lt.mpr ⟨before, limit⟩)
  case pos =>
    intro fd' other opened'
    change IsPosition (Function.update session.file index file other).pos
    by_cases this : other = index
    · rw [this, Function.update_self]
      exact position
    · rw [Function.update_of_ne this]
      exact sound.pos fd' other opened'

end Session.Sound

theorem satisfies_onFile
    {α : Type}
    {index : Nat}
    {routine : OpenFile → Routine Fs (α × OpenFile)}
    (sound : session.Sound sb)
    (runs :
      (routine (session.file index)).Satisfies session.fs
        (fun result after =>
          result.2.inode = (session.file index).inode ∧
            IsPosition result.2.pos ∧ Kept sb session.fs after)
        (fun _ => False)) :
    (onFile index routine).Satisfies session
      (fun _ after => after.Sound sb) (fun _ => False) := by
  unfold onFile
  rw [satisfies_bind, satisfies_read, satisfies_bind, satisfies_zoom]
  refine runs.mono ?_ (fun _ => id)
  rintro ⟨value, file⟩ after ⟨same, position, kept⟩
  exact sound.onFile kept same position

theorem satisfies_setPos
    {index : Nat} {pos : Int}
    (sound : session.Sound sb)
    (fits : HitOs.Fits pos) :
    (setPos index pos).Satisfies session
      (fun _ after => after.Sound sb) (fun _ => False) := by
  unfold setPos
  by_cases negative : pos < 0
  · rw [if_pos negative, satisfies_pure]
    exact sound
  · rw [if_neg negative]
    exact sound.onFile (.refl sound.consistent) rfl
      ⟨Int.not_lt.mp negative, fits⟩

theorem satisfies_sysLseek
    {fd origin : Nat} {offset : Int}
    (sound : session.Sound sb)
    (fits : HitOs.Fits offset) :
    (sysLseek dev fd offset origin).Satisfies session
      (fun _ after => after.Sound sb) (fun _ => False) := by
  unfold sysLseek
  rw [satisfies_bind, satisfies_read]
  cases opened : session.opened fd with
  | none =>
    exact sound
  | some index =>
    simp only
    by_cases seekable : Files.isSeekable (Files.major dev) = true
    · rw [seekable, Bool.not_true, if_neg Bool.false_ne_true]
      match origin with
      | 0 =>
        exact satisfies_setPos sound fits
      | 1 | 2 =>
        exact satisfies_setPos sound (fits_int32 _)
      | _ + 3 =>
        exact sound
    · rw [Bool.not_eq_true] at seekable
      rw [seekable, Bool.not_false, if_pos rfl]
      exact sound

theorem satisfies_sysRead
    {fd : Nat} {count : Int} {readable : Int → Nat → Bool}
    (sound : session.Sound sb)
    (safe : (Call.read fd count readable).Safe sb session) :
    (sysRead near sb readable fd count).Satisfies session
      (fun _ after => after.Sound sb) (fun _ => False) := by
  unfold sysRead
  rw [satisfies_bind, satisfies_read]
  by_cases negative : count < 0
  · rw [if_pos negative]
    exact sound
  rw [if_neg negative]
  cases opened : session.opened fd with
  | none =>
    exact sound
  | some index =>
    simp only
    by_cases nothing : count = 0
    · rw [if_pos nothing]
      exact sound
    rw [if_neg nothing]
    by_cases ended : (session.file index).clipped session.fs count ≤ 0
    · rw [if_pos ended]
      exact sound
    rw [if_neg ended]
    have inside := safe index opened (by omega) (by omega)
    refine (satisfies_onFile sound ?_).andThen
      (fun _ _ sound' => sound')
    exact satisfies_fileRead sound.consistent (sound.isFile opened)
      (sound.pos fd index opened)
      (by rw [Int.toNat_of_nonneg (by omega)]; exact inside)

theorem satisfies_sysWrite
    {fd : Nat} {bytes : Nat → UInt8} {count : Int}
    {readable : Int → Nat → Bool}
    (sound : session.Sound sb)
    (safe : (Call.write fd bytes count readable).Safe sb session) :
    (sysWrite near sb readable fd bytes count).Satisfies session
      (fun _ after => after.Sound sb) (fun _ => False) := by
  unfold sysWrite
  rw [satisfies_bind, satisfies_read]
  by_cases negative : count < 0
  · rw [if_pos negative]
    exact sound
  rw [if_neg negative]
  cases opened : session.opened fd with
  | none =>
    exact sound
  | some index =>
    simp only
    by_cases nothing : count = 0
    · rw [if_pos nothing]
      exact sound
    rw [if_neg nothing]
    obtain ⟨start, stays⟩ := safe index opened (by omega)
    apply satisfies_onFile sound
    apply satisfies_fileWrite sound.consistent (sound.isFile opened)
      (sound.pos fd index opened) start
    rw [List.length_map, List.length_range]
    exact stays

/-- What one call preserves. -/
theorem preserves_sound :
    (machine near sb dev).Preserves (Session.Sound sb) := by
  rintro call session sound ⟨fits, safe⟩
  have ends :
      (call.perform near sb dev).Satisfies session
        (fun _ after => after.Sound sb) (fun _ => False) := by
    cases call with
    | lseek fd offset origin =>
      exact (satisfies_sysLseek sound fits).andThen
        (fun _ _ sound' => sound')
    | read fd count readable =>
      exact (satisfies_sysRead sound safe).andThen
        (fun _ _ sound' => sound')
    | write fd bytes count readable =>
      exact (satisfies_sysWrite sound safe).andThen
        (fun _ _ sound' => sound')
  exact ends.mono (fun _ _ => id) (fun _ => False.elim)

/--
No position becomes negative and no call panics, in all runs whose reads and
writes keep to the blocks that `_bmap` can number.
-/
theorem offsets_stay
    (near : Neighbours)
    (sb : SuperBlock)
    (dev : Nat)
    (session : Session)
    (reached : (machine near sb dev).Reachable session) :
    (∀ fd index, session.opened fd = some index →
        0 ≤ (session.file index).pos) ∧
      ∀ call, (machine near sb dev).enabled call session →
        ∀ message, call.perform near sb dev session ≠ .panic message := by
  have sound : session.Sound sb :=
    reached.invariant (fun _ => id) preserves_sound
  refine ⟨fun fd index opened => (sound.pos fd index opened).1, ?_⟩
  intro call enabled message
  exact (preserves_sound call session sound enabled).not_panic message

/-- Nothing of interest lies before the data of a buffer. -/
def noNeighbours : Neighbours where
  load _ _ _ := 0
  store _ _ _ := id

/-- An empty file is open for writing. -/
def emptyOpened : Session where
  fs := emptyFs 0o100000
  filp fd := if fd = 3 then some 0 else none
  file _ := { inode := 0, append := false, pos := 0 }

theorem emptyOpened_sound : emptyOpened.Sound smallSuper where
  consistent := emptyFs_consistent
  regular _ _ _ := by
    change isReg 0o100000 = true
    decide
  size _ _ _ := by
    change 0 < 2 ^ 32
    decide
  pos _ _ _ := by
    have zero : IsPosition 0 :=
      ⟨Int.le_refl 0, by decide, by decide⟩
    exact zero

/-- The file after `lseek` to a position. -/
def soughtTo (pos : Int) : Session :=
  emptyOpened.setFile 0 { inode := 0, append := false, pos := pos }

theorem soughtTo_reachable
    {pos : Int}
    (position : IsPosition pos) :
    (machine noNeighbours smallSuper 0x301).Reachable (soughtTo pos) := by
  have sets :
      setPos 0 pos emptyOpened = .ret pos (soughtTo pos) := by
    unfold setPos
    rw [if_neg (Int.not_lt.mpr position.1)]
    rfl
  have sought :
      sysLseek 0x301 3 pos 0 emptyOpened = .ret pos (soughtTo pos) := sets
  have stepped :
      (machine noNeighbours smallSuper 0x301).Step emptyOpened
        (.lseek 3 pos 0) (soughtTo pos) :=
    .returned ⟨position.2, trivial⟩ (bind_of_ret sought)
  exact .step (.start emptyOpened_sound) stepped

theorem offsets_stay_sought :
    (machine noNeighbours smallSuper 0x301).Reachable (soughtTo 1023) ∧
      (∀ fd index, (soughtTo 1023).opened fd = some index →
        0 ≤ ((soughtTo 1023).file index).pos) ∧
      ∀ call,
        (machine noNeighbours smallSuper 0x301).enabled call
            (soughtTo 1023) →
          ∀ message,
            call.perform noNeighbours smallSuper 0x301 (soughtTo 1023) ≠
              .panic message := by
  have reached :
      (machine noNeighbours smallSuper 0x301).Reachable (soughtTo 1023) :=
    soughtTo_reachable ⟨by decide, by decide, by decide⟩
  exact ⟨reached, offsets_stay _ _ _ _ reached⟩

/-- One byte written at the first position that `_bmap` does not support. -/
theorem offset_panics :
    ∃ (session : Session) (call : Call),
      (machine noNeighbours smallSuper 0x301).Reachable session ∧
        call.Fits ∧
        call.perform noNeighbours smallSuper 0x301 session =
          .panic "_bmap: block>big" := by
  refine ⟨soughtTo 268966912,
    .write 3 (fun _ => 0) 1 (fun _ _ => true),
    soughtTo_reachable ⟨by decide, by decide, by decide⟩,
    ⟨by decide, by decide⟩, ?_⟩
  have loop :
      fileWriteLoop noNeighbours smallSuper (fun _ _ => true) 0 268966912
          [0] (emptyFs 0o100000) =
        .panic "_bmap: block>big" := by
    rw [fileWriteLoop, dif_neg (by decide)]
    rfl
  have wrote :
      fileWrite noNeighbours smallSuper (fun _ _ => true)
          { inode := 0, append := false, pos := 268966912 } [0]
          (emptyFs 0o100000) =
        .panic "_bmap: block>big" := by
    have reads :
        (Routine.read : Routine Fs Fs) (emptyFs 0o100000) = .ret _ _ := rfl
    unfold fileWrite
    rw [bind_of_ret reads]
    exact bind_of_panic loop
  have zoomed :
      zoom Session.fs Session.setFs
          (fileWrite noNeighbours smallSuper (fun _ _ => true)
            { inode := 0, append := false, pos := 268966912 } [0])
          (soughtTo 268966912) =
        .panic "_bmap: block>big" := by
    unfold zoom
    rw [show (soughtTo 268966912).fs = emptyFs 0o100000 from rfl, wrote]
  have reads :
      (Routine.read : Routine Session Session) (soughtTo 268966912) = .ret _ _ := rfl
  have filed :
      onFile 0
          (fun filp =>
            fileWrite noNeighbours smallSuper (fun _ _ => true) filp [0])
          (soughtTo 268966912) =
        .panic "_bmap: block>big" := by
    unfold onFile
    rw [bind_of_ret reads]
    exact bind_of_panic zoomed
  have called :
      sysWrite noNeighbours smallSuper (fun _ _ => true) 3 (fun _ => 0) 1
          (soughtTo 268966912) =
        .panic "_bmap: block>big" := by
    unfold sysWrite
    rw [bind_of_ret reads]
    exact filed
  exact bind_of_panic called

end FileOffsets

end HitOs
