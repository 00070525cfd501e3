import HitOs.EvictionInodes

namespace HitOs

/-!
# When `getblk` returns

A `getblk` that is called while an inode is locked returns if and only if it has the
block or finds a clean buffer, since `sync_inodes` waits for the lock for ever.  From
this follows exactly when the outermost one returns.
-/

namespace Evictions

open Routine
open Inodes (Index nrInode)

variable {n : Nat} {devices : Devices} {done : Nat → Fin n → Bool}
variable {wanted : Set Place} {heads heads' : Heads n}
variable {inodes : Index → Inode} {kernel : Kernel n} {bh other : Fin n}
variable {dev block : Nat} {place : Place} {enough : Prop}
variable {inner : Nat → Nat → Routine (Kernel n) (Fin n)}

/-! ## `get_hash_table` -/

theorem satisfies_getHashTable
    {turns : Nat}
    (shows : Shows devices wanted heads inodes kernel) :
    (getHashTable devices done dev block (turns + 1)).Satisfies kernel
      (fun found after =>
        found = Buffers.findBuffer dev block kernel.cache ∧
          (found = none → after = kernel) ∧
          ∀ bh, found = some bh →
            Shows devices wanted
              (Function.update heads bh
                { heads bh with count := (heads bh).count + 1 })
              inodes after)
      (fun _ => False) := by
  rw [getHashTable, satisfies_bind, satisfies_read]
  cases found : Buffers.findBuffer dev block kernel.cache with
  | none =>
    exact ⟨rfl, fun _ => rfl, fun _ => nofun⟩
  | some bh =>
    have here := shows.findBuffer_some found
    have raised :
        Shows devices wanted
          (Function.update heads bh
            { heads bh with count := (heads bh).count + 1 })
          inodes (kernel.raise bh) := by
      unfold Kernel.raise
      rw [show (kernel.buffer bh).count = (heads bh).count from
        congrArg Head.count (shows.head bh)]
      exact shows.setCount
    simp only
    rw [satisfies_bind, satisfies_update]
    refine (satisfies_waitOnBuffer raised).andThen ?_
    rintro _ middle ⟨shown, _⟩
    have head := shown.head bh
    rw [Function.update_self] at head
    have holds : (middle.buffer bh).holds dev block = true := by
      unfold Buffers.Buffer.holds
      rw [show (middle.buffer bh).dev = (heads bh).dev from
          congrArg Head.dev head,
        show (middle.buffer bh).blocknr = (heads bh).blocknr from
          congrArg Head.blocknr head,
        show (heads bh).dev = dev from congrArg Prod.fst here,
        show (heads bh).blocknr = block from congrArg Prod.snd here,
        beq_self_eq_true, beq_self_eq_true]
      rfl
    rw [satisfies_bind, satisfies_read, if_pos holds]
    refine ⟨rfl, fun impossible => (nomatch impossible), ?_⟩
    rintro _ ⟨⟩
    exact shown

/-! ## One pass -/

/-- All inodes. -/
def allInodes : List Index :=
  List.finRange nrInode

/-- `sync_dev`, with the condition of `sync_inodes` after the first loop. -/
theorem returnsIff_pass
    (nested : Nested devices wanted enough inner)
    (shows : Shows devices wanted heads inodes kernel)
    (isDev : (heads bh).dev = dev) :
    ReturnsIff enough
      (Writable devices inodes allInodes ∧
        Fits (written devices dev (List.finRange n) heads)
          (homes devices inodes allInodes))
      (pass devices done inner bh) kernel
      (fun _ after =>
        ∃ heads',
          StoresAll (written devices dev (List.finRange n) heads)
              (homes devices inodes allInodes) heads' ∧
            Shows devices wanted
              (written devices dev (List.finRange n) heads')
              (flushed inodes allInodes) after) := by
  unfold pass syncDev
  rw [returnsIff_read_bind,
    show (kernel.buffer bh).dev = dev from
      (congrArg Head.dev (shows.head bh)).trans isDev, bind_assoc]
  refine (satisfies_syncBuffers shows).andThenIff ?_
  intro _ middle shown
  rw [bind_assoc]
  refine (returnsIff_syncInodes nested shown
    (List.nodup_finRange nrInode)).andThenSatisfies ?_
  rintro _ middle' _ ⟨heads', stores, shown'⟩
  refine (satisfies_syncBuffers shown').andThen ?_
  intro _ middle'' shown''
  refine (satisfies_waitOnBuffer shown'').mono ?_ (fun _ => id)
  rintro _ after ⟨shown3, _⟩
  exact ⟨heads', stores, shown3⟩

/-- `while (bh->b_dirt)` is over when the buffer is clean. -/
theorem satisfies_clean
    {turns : Nat}
    (shows : Shows devices wanted heads inodes kernel)
    (isClean : (heads bh).dirt = false) :
    (clean devices done inner bh (turns + 1)).Satisfies kernel
      (fun again after => again = true ∧ after = kernel)
      (fun _ => False) := by
  rw [clean, satisfies_bind, satisfies_read,
    show (kernel.buffer bh).dirt = false from
      (congrArg Head.dirt (shows.head bh)).trans isClean,
    Bool.not_false, if_pos rfl]
  exact ⟨rfl, rfl⟩

/-- `while (bh->b_dirt)` does not end while an inode is locked. -/
theorem never_clean_locked
    {turns : Nat} {returned : Bool → Kernel n → Prop}
    (nested : Nested devices wanted enough inner)
    (shows : Shows devices wanted heads inodes kernel)
    (dirty : (heads bh).dirt = true)
    (locked : ∃ index, (inodes index).lock = true) :
    ReturnsIff enough False (clean devices done inner bh turns) kernel
      returned := by
  cases turns with
  | zero =>
    exact returnsIff_abandon
  | succ turns =>
    rw [clean, returnsIff_read_bind,
      show (kernel.buffer bh).dirt = true from
        (congrArg Head.dirt (shows.head bh)).trans dirty,
      Bool.not_true, if_neg Bool.false_ne_true]
    refine ((returnsIff_pass nested shows rfl).of_iff
      (iff_of_false ?_ id)).never_bind
    rintro ⟨writable, _⟩
    obtain ⟨index, locked⟩ := locked
    have unlocked := writable.unlocked index (List.mem_finRange index)
    exact nomatch locked.symm.trans unlocked

/-! ## `getblk` while an inode is locked -/

/-- The buffer becomes that of the block. -/
theorem Shows.claim
    (shows : Shows devices wanted heads inodes kernel)
    (absent : ∀ other, (heads other).place ≠ place) :
    ∃ claimed,
      Buffers.claim place.1 place.2 bh kernel.cache = some claimed ∧
        Shows devices wanted
          (Function.update heads bh
            { dev := place.1, blocknr := place.2, count := 1, dirt := false })
          inodes { kernel with cache := claimed } := by
  have absent' :
      ∀ other, ¬ ((kernel.cache.buffer other).dev = place.1 ∧
        (kernel.cache.buffer other).blocknr = place.2) := by
    rintro other ⟨dev, block⟩
    apply absent other
    rw [← shows.head]
    exact Prod.ext dev block
  obtain ⟨claimed, result, wellFormed, _⟩ :=
    shows.wellFormed.claim (fun _ => absent') bh
  have buffers := Buffers.claim_buffer result
  refine ⟨claimed, result, ?_, shows.table, wellFormed, ?_, shows.wants⟩
  · funext other
    change headOf (claimed.buffer other) = _
    rw [buffers]
    by_cases this : other = bh
    · rw [this, Function.update_self, Function.update_self]
      rfl
    · rw [Function.update_of_ne this, Function.update_of_ne this]
      exact shows.head other
  · intro other
    change (headOf (claimed.buffer other)).place ∈ wanted →
      (claimed.buffer other).uptodate = true →
        devices.readable (claimed.buffer other).dev
          (claimed.buffer other).blocknr = true
    rw [buffers]
    by_cases this : other = bh
    · rw [this, Function.update_self]
      exact fun _ uptodate => nomatch uptodate
    · rw [Function.update_of_ne this]
      exact shows.readable other

theorem findBuffer_of_absent
    (shows : Shows devices wanted heads inodes kernel)
    (absent : ∀ other, (heads other).place ≠ (dev, block)) :
    Buffers.findBuffer dev block kernel.cache = none := by
  cases found : Buffers.findBuffer dev block kernel.cache with
  | none =>
    rfl
  | some bh =>
    exact absurd (shows.findBuffer_some found) (absent bh)

/-- The victim is not in use, and clean if any such buffer is. -/
theorem Shows.choose
    (shows : Shows devices wanted heads inodes kernel)
    (chosen : Buffers.choose kernel.cache = some bh) :
    (heads bh).count = 0 ∧
      ((heads bh).dirt = true → ∀ other, ¬ Clean heads other) := by
  obtain ⟨unused, least⟩ := shows.wellFormed.choose.2 bh chosen
  refine ⟨(congrArg Head.count (shows.head bh)).symm.trans unused, ?_⟩
  rintro dirty other ⟨unused', clean⟩
  rw [← shows.head] at dirty unused' clean
  have clean' := Buffers.dirt_of_badness (least other unused') clean
  exact nomatch dirty.symm.trans clean'

theorem Shows.choose_none
    (shows : Shows devices wanted heads inodes kernel)
    (chosen : Buffers.choose kernel.cache = none)
    (bh : Fin n) :
    (heads bh).count ≠ 0 := by
  rw [← shows.head]
  exact shows.wellFormed.choose.1 chosen bh

/-- While an inode is locked, no other inode can be written to make room. -/
theorem nested_getblk
    (fuel : Nat) :
    Nested devices wanted (2 ≤ fuel) (getblk (n := n) devices done fuel) := by
  induction fuel with
  | zero =>
    intro heads inodes kernel place _ _ _
    exact returnsIff_of_not_enough (by decide) rfl
  | succ fuel inductionHypothesis =>
    intro heads inodes kernel place hasDevice shows locked
    rw [getblk]
    refine (satisfies_getHashTable shows).andThenIff ?_
    rintro found middle ⟨result, unchanged, shown⟩
    cases found with
    | some bh =>
      have here : (heads bh).place = place :=
        shows.findBuffer_some result.symm
      have returned :
          (pure bh : Routine (Kernel n) (Fin n)).Satisfies middle
            (fun bh after =>
              ∃ heads', Gets heads place bh heads' ∧
                Shows devices wanted heads' inodes after)
            (fun _ => False) :=
        ⟨_, .found here, shown bh rfl⟩
      exact returned.returnsIff.of_iff
        (iff_of_true trivial (Or.inl ⟨bh, here⟩))
    | none =>
      rw [unchanged rfl]
      have absent := shows.findBuffer_none hasDevice result.symm
      simp only
      rw [returnsIff_read_bind]
      cases chosen : Buffers.choose kernel.cache with
      | none =>
        refine returnsIff_abandon.of_iff (iff_of_false id ?_)
        rintro (⟨bh, here⟩ | ⟨bh, clean⟩)
        · exact absent bh here
        · exact shows.choose_none chosen bh clean.1
      | some bh =>
        obtain ⟨unused, best⟩ := shows.choose chosen
        simp only
        refine (satisfies_waitOnBuffer shows).andThenIff ?_
        rintro _ waited ⟨shown', _⟩
        rw [returnsIff_read_bind,
          show (waited.buffer bh).count = 0 from
            (congrArg Head.count (shown'.head bh)).trans unused,
          if_neg (not_not.mpr rfl)]
        cases dirty : (heads bh).dirt with
        | true =>
          have never :
              ReturnsIff (2 ≤ fuel) False
                (clean devices done (getblk devices done fuel) bh
                  fuel) waited (fun _ _ => True) :=
            never_clean_locked inductionHypothesis shown' dirty
              locked
          refine never.never_bind.of_iff
            (iff_of_false id ?_)
          rintro (⟨bh, here⟩ | ⟨other, isClean⟩)
          · exact absent bh here
          · exact best dirty other isClean
        | false =>
          have room : Room heads place :=
            Or.inr ⟨bh, unused, dirty⟩
          cases fuel with
          | zero =>
            exact returnsIff_of_not_enough (by decide) rfl
          | succ fuel =>
            refine Satisfies.andThenIff
              (satisfies_clean shown' dirty) ?_
            rintro _ last ⟨rfl, rfl⟩
            obtain ⟨claimed, isClaimed, shows_claimed⟩ :=
              shown'.claim absent
            simp only
            rw [returnsIff_read_bind,
              findBuffer_of_absent shown' absent,
              Option.isSome_none, if_neg Bool.false_ne_true,
              isClaimed]
            have returned :
                (do
                  update fun kernel : Kernel n =>
                    { kernel with cache := claimed }
                  pure bh :
                  Routine (Kernel n) (Fin n)).Satisfies last
                  (fun bh after =>
                    ∃ heads', Gets heads place bh heads' ∧
                      Shows devices wanted heads' inodes after)
                  (fun _ => False) :=
              ⟨_, .taken absent ⟨unused, dirty⟩, shows_claimed⟩
            exact returned.returnsIff.of_iff
              (iff_of_true trivial room)

end Evictions

end HitOs
