import HitOs.EvictionRoom

namespace HitOs

/-!
# Writing inodes while one is locked

`bread`, `write_inode` and `sync_inodes`, for every `getblk` that returns, while some
inode is locked, if and only if it has the block or finds a clean buffer.
-/

namespace Evictions

open Routine
open Inodes (Index nrInode)

variable {n : Nat} {devices : Devices} {done : Nat → Fin n → Bool}
variable {wanted : Set Place} {heads heads' : Heads n} {inodes : Index → Inode}
variable {kernel : Kernel n} {bh other : Fin n} {index : Index}
variable {dev block : Nat} {place : Place} {places : List Place}
variable {enough : Prop} {getblk : Nat → Nat → Routine (Kernel n) (Fin n)}

/-! ## Getting a block -/

/-- The only buffer of a block of a device. -/
theorem Shows.only
    (shows : Shows devices wanted heads inodes kernel)
    (hasDevice : place.1 ≠ 0)
    (here : (heads bh).place = place)
    (there : (heads other).place = place) :
    other = bh := by
  rw [← shows.head] at here there
  have devs := congrArg Prod.fst (there.trans here.symm)
  have blocks := congrArg Prod.snd (there.trans here.symm)
  refine shows.wellFormed.unique other bh ?_ devs blocks
  rwa [show (kernel.cache.buffer other).dev = place.1 from
    congrArg Prod.fst there]

theorem Shows.findBuffer_none
    (shows : Shows devices wanted heads inodes kernel)
    (hasDevice : place.1 ≠ 0)
    (missed : Buffers.findBuffer place.1 place.2 kernel.cache = none)
    (bh : Fin n) :
    (heads bh).place ≠ place := by
  intro here
  rw [← shows.head] at here
  exact Buffers.findBuffer_eq_none shows.wellFormed hasDevice missed bh
    ⟨congrArg Prod.fst here, congrArg Prod.snd here⟩

theorem Shows.findBuffer_some
    (shows : Shows devices wanted heads inodes kernel)
    (found : Buffers.findBuffer dev block kernel.cache = some bh) :
    (heads bh).place = (dev, block) := by
  rw [← shows.head]
  obtain ⟨same, same'⟩ :=
    Buffers.findBuffer_eq_some shows.wellFormed found
  exact Prod.ext same same'

/-- What `getblk` does to the buffer that it returns. -/
inductive Gets
    (heads : Heads n)
    (place : Place)
    (bh : Fin n) : Heads n → Prop where
  | found
      (here : (heads bh).place = place) :
      Gets heads place bh
        (Function.update heads bh
          { heads bh with count := (heads bh).count + 1 })
  | taken
      (absent : ∀ other, (heads other).place ≠ place)
      (clean : Clean heads bh) :
      Gets heads place bh
        (Function.update heads bh
          { dev := place.1, blocknr := place.2, count := 1, dirt := false })

theorem Gets.here
    (gets : Gets heads place bh heads') :
    (heads' bh).place = place := by
  cases gets with
  | found here =>
    rw [Function.update_self]
    exact here
  | taken =>
    rw [Function.update_self]
    rfl

theorem Gets.used
    (gets : Gets heads place bh heads') :
    (heads' bh).count ≠ 0 := by
  cases gets with
  | found =>
    rw [Function.update_self]
    exact Nat.succ_ne_zero _
  | taken =>
    rw [Function.update_self]
    exact Nat.succ_ne_zero _

/-- `bh->b_dirt = 1; brelse(bh);` -/
theorem Gets.stores
    (gets : Gets heads place bh heads')
    (only : ∀ other, (heads other).place = place →
      (heads bh).place = place → other = bh) :
    StoresAt heads place bh
      (Function.update heads' bh
        { heads' bh with
          count := (heads' bh).count - 1, dirt := true }) := by
  cases gets with
  | found here =>
    rw [Function.update_self, Function.update_idem]
    exact storesAt_found here (fun other there => only other there here)
  | taken absent clean =>
    rw [Function.update_self, Function.update_idem]
    exact storesAt_taken absent clean

/-- What is known of `getblk` while an inode is locked. -/
def Nested
    (devices : Devices)
    (wanted : Set Place)
    (enough : Prop)
    (getblk : Nat → Nat → Routine (Kernel n) (Fin n)) : Prop :=
  ∀ {heads : Heads n} {inodes : Index → Inode} {kernel : Kernel n}
    {place : Place},
    place.1 ≠ 0 → Shows devices wanted heads inodes kernel →
      (∃ index, (inodes index).lock = true) →
        ReturnsIff enough (Room heads place) (getblk place.1 place.2) kernel
          (fun bh after =>
            ∃ heads', Gets heads place bh heads' ∧
              Shows devices wanted heads' inodes after)

/-- What `bread` returns, and that it may have read the block. -/
def Reads
    (devices : Devices)
    (wanted : Set Place)
    (heads : Heads n)
    (inodes : Index → Inode)
    (place : Place)
    (found : Option (Fin n))
    (after : Kernel n) : Prop :=
  (devices.readable place.1 place.2 = false → found = none) ∧
    (devices.readable place.1 place.2 = true →
      ∃ bh heads' dirt, found = some bh ∧ Gets heads place bh heads' ∧
        Shows devices wanted
          (Function.update heads' bh { heads' bh with dirt := dirt })
          inodes after)

theorem returnsIff_bread
    (nested : Nested devices wanted enough getblk)
    (hasDevice : place.1 ≠ 0)
    (wants : place ∈ wanted)
    (shows : Shows devices wanted heads inodes kernel)
    (locked : ∃ index, (inodes index).lock = true) :
    ReturnsIff enough (Room heads place)
      (bread devices done getblk place.1 place.2) kernel
      (Reads devices wanted heads inodes place) := by
  unfold bread
  refine (nested hasDevice shows locked).andThenSatisfies ?_
  rintro bh middle _ ⟨heads', gets, shown⟩
  have dev := congrArg Prod.fst gets.here
  have block := congrArg Prod.snd gets.here
  change (heads' bh).dev = place.1 at dev
  change (heads' bh).blocknr = place.2 at block
  have wants' : (headOf (middle.buffer bh)).place ∈ wanted := by
    rw [shown.head, gets.here]
    exact wants
  have wants'' : (heads' bh).place ∈ wanted := by
    rw [gets.here]
    exact wants
  rw [satisfies_bind, satisfies_read]
  cases uptodate : (middle.buffer bh).uptodate with
  | true =>
    have readable := shown.readable bh wants' uptodate
    rw [show (middle.buffer bh).dev = place.1 from
        (congrArg Head.dev (shown.head bh)).trans dev,
      show (middle.buffer bh).blocknr = place.2 from
        (congrArg Head.blocknr (shown.head bh)).trans block] at readable
    refine ⟨fun unreadable => (nomatch readable.symm.trans unreadable),
      fun _ => ⟨bh, heads', (heads' bh).dirt, rfl, gets, ?_⟩⟩
    rw [update_dirt rfl]
    exact shown
  | false =>
    refine (satisfies_llRwBlock_read shown wants'' uptodate).andThen ?_
    rintro _ requested ⟨⟨dirt, shown'⟩, settled⟩
    refine (satisfies_waitOnBuffer shown').andThen ?_
    rintro _ waited ⟨shown'', result⟩
    replace result := result settled
    rw [Function.update_self] at result
    change (waited.buffer bh).uptodate =
      devices.readable (heads' bh).dev (heads' bh).blocknr at result
    rw [dev, block] at result
    rw [satisfies_bind, satisfies_read, result]
    cases readable : devices.readable place.1 place.2 with
    | true =>
      exact ⟨fun unreadable => (nomatch readable.symm.trans unreadable),
        fun _ => ⟨bh, heads', dirt, rfl, gets, shown''⟩⟩
    | false =>
      have used :
          (Function.update heads' bh
            { heads' bh with dirt := dirt } bh).count ≠ 0 := by
        rw [Function.update_self]
        exact gets.used
      refine (satisfies_brelse shown'' used).andThen ?_
      intro _ last _
      exact ⟨fun _ => rfl, fun readable' => nomatch readable.symm.trans readable'⟩

/-! ## `write_inode` -/

/-- An inode that `sync_inodes` writes. -/
def Inode.pending (inode : Inode) : Bool :=
  inode.dirt && !inode.pipe && inode.dev != 0

/-- An inode changes, but for its number and its device. -/
theorem Shows.wants_update
    (shows : Shows devices wanted heads inodes kernel)
    (value : Inode)
    (same : value.home devices = (inodes index).home devices) :
    ∀ index' place,
      (Function.update inodes index value index').home devices =
        some place → place ∈ wanted := by
  intro index' place home
  apply shows.wants index' place
  by_cases this : index' = index
  · rw [this, Function.update_self, same] at home
    rwa [this]
  · rwa [Function.update_of_ne this] at home

theorem Shows.lockInode
    {lock : Bool}
    (shows : Shows devices wanted heads inodes kernel) :
    Shows devices wanted heads
      (Function.update inodes index { inodes index with lock := lock })
      (kernel.lockInode index lock) := by
  have homes := shows.wants_update { inodes index with lock := lock } rfl
  rw [← shows.table] at homes ⊢
  exact ⟨shows.heads, rfl, shows.wellFormed, shows.readable, homes⟩

theorem Shows.cleanInode
    (shows : Shows devices wanted heads inodes kernel) :
    Shows devices wanted heads
      (Function.update inodes index { inodes index with dirt := false })
      (kernel.cleanInode index) := by
  have homes := shows.wants_update { inodes index with dirt := false } rfl
  rw [← shows.table] at homes ⊢
  exact ⟨shows.heads, rfl, shows.wellFormed, shows.readable, homes⟩

/-- What comes after `bread` in `write_inode`. -/
theorem satisfies_store
    {lockedInodes : Index → Inode} {dirt : Bool}
    (locked :
      lockedInodes = Function.update inodes index { inodes index with lock := true })
    (unlocked : (inodes index).lock = false)
    (gets : Gets heads place bh heads')
    (only : ∀ other, (heads other).place = place →
      (heads bh).place = place → other = bh)
    (shows :
      Shows devices wanted
        (Function.update heads' bh { heads' bh with dirt := dirt })
        lockedInodes kernel) :
    (do
      update (Kernel.setDirt bh true)
      update (Kernel.cleanInode index)
      brelse devices done bh
      update (Kernel.lockInode index false) :
      Routine (Kernel n) Unit).Satisfies kernel
      (fun _ after =>
        ∃ heads'', StoresAt heads place bh heads'' ∧
          Shows devices wanted heads''
            (Function.update inodes index
              { inodes index with dirt := false }) after)
      (fun _ => False) := by
  subst locked
  rw [satisfies_bind, satisfies_update, satisfies_bind, satisfies_update]
  have shown :
      Shows devices wanted
        (Function.update heads' bh { heads' bh with dirt := true })
        (Function.update inodes index
          { inodes index with lock := true, dirt := false })
        (Kernel.cleanInode index (kernel.setDirt bh true)) := by
    have dirtied : Shows devices wanted _ _ (kernel.setDirt bh true) :=
      shows.setDirt
    have cleaned : Shows devices wanted _ _
        (Kernel.cleanInode index (kernel.setDirt bh true)) :=
      dirtied.cleanInode
    rw [Function.update_self, Function.update_idem, Function.update_self,
      Function.update_idem] at cleaned
    exact cleaned
  have used :
      (Function.update heads' bh { heads' bh with dirt := true } bh).count ≠
        0 := by
    rw [Function.update_self]
    exact gets.used
  refine (satisfies_brelse shown used).andThen ?_
  intro _ last shown'
  rw [Function.update_self, Function.update_idem] at shown'
  have unlocked' : Shows devices wanted _ _ (last.lockInode index false) :=
    shown'.lockInode
  rw [Function.update_self, Function.update_idem] at unlocked'
  rw [satisfies_update]
  refine ⟨_, gets.stores only, ?_⟩
  have same :
      ({ inodes index with dirt := false } : Inode) =
        { inodes index with lock := false, dirt := false } := by
    rw [← unlocked]
  rw [same]
  exact unlocked'

/-- `write_inode` needs a super block, a block that can be read and room for it. -/
theorem returnsIff_writeInode
    (nested : Nested devices wanted enough getblk)
    (shows : Shows devices wanted heads inodes kernel)
    (unlocked : (inodes index).lock = false)
    (dirty : (inodes index).dirt = true)
    (hasDevice : (inodes index).dev ≠ 0) :
    ReturnsIff enough
      (∃ place, (inodes index).home devices = some place ∧
        devices.readable place.1 place.2 = true ∧ Room heads place)
      (writeInode devices done getblk index) kernel
      (fun _ after =>
        ∃ place heads', (inodes index).home devices = some place ∧
          Stores heads place heads' ∧
          Shows devices wanted heads'
            (Function.update inodes index
              { inodes index with dirt := false }) after) := by
  have wants := shows.wants index
  unfold Inode.home at wants
  unfold writeInode Inode.home
  rw [returnsIff_read_bind, shows.table]
  simp only
  rw [unlocked, if_neg Bool.false_ne_true, returnsIff_update_bind, dirty,
    Bool.not_true, Bool.false_or, if_neg (by rwa [beq_iff_eq])]
  have locked : Shows devices wanted heads
      (Function.update inodes index { inodes index with lock := true })
      (kernel.lockInode index true) :=
    shows.lockInode
  have someLocked :
      ∃ another,
        (Function.update inodes index
          { inodes index with lock := true } another).lock = true :=
    ⟨index, by rw [Function.update_self]⟩
  cases super : devices.super (inodes index).dev with
  | none =>
    refine (returnsIff_panic _).of_iff (iff_of_false id ?_)
    rintro ⟨place, home, _⟩
    cases home
  | some first =>
    let place : Place := ((inodes index).dev, (inodes index).block first)
    have same :
        (∃ target, Option.map
              (fun first => ((inodes index).dev,
                (inodes index).block first)) (some first) =
            some target ∧
          devices.readable target.1 target.2 = true ∧ Room heads target) ↔
          Room heads place ∧
            devices.readable place.1 place.2 = true := by
      constructor
      · rintro ⟨_, ⟨⟩, readable, room⟩
        exact ⟨room, readable⟩
      · exact fun both => ⟨place, rfl, both.2, both.1⟩
    have hasDevice' : place.1 ≠ 0 := hasDevice
    have wants' : place ∈ wanted := by
      apply wants
      rw [super]
      rfl
    refine ((returnsIff_bread nested hasDevice' wants' locked
      someLocked).andThen ?_).of_iff same.symm
    rintro found middle _ ⟨unread, reads⟩
    cases readable : devices.readable place.1 place.2 with
    | false =>
      rw [unread readable]
      exact (returnsIff_panic _).of_iff
        (iff_of_false id Bool.false_ne_true)
    | true =>
      obtain ⟨bh, heads', dirt, rfl, gets, shown⟩ := reads readable
      refine ((satisfies_store rfl unlocked gets ?_
        shown).returnsIff.mono ?_).of_iff (iff_of_true trivial rfl)
      · exact fun other there here =>
          shows.only hasDevice' here there
      · rintro _ after _ ⟨heads'', stores, shown'⟩
        simp only [unlocked] at shown'
        exact ⟨place, heads'', rfl, ⟨bh, stores⟩, shown'⟩

/-! ## `sync_inodes` -/

/-- The blocks of the inodes that are written. -/
def homes
    (devices : Devices)
    (inodes : Index → Inode)
    (indices : List Index) : List Place :=
  (indices.filter fun index => (inodes index).pending).filterMap
    fun index => (inodes index).home devices

local instance : LawfulBEq Index :=
  inferInstance

/-- The inodes afterwards. -/
def flushed
    (inodes : Index → Inode)
    (indices : List Index) : Index → Inode :=
  fun index =>
    if index ∈ indices ∧ (inodes index).pending = true then
      { inodes index with dirt := false }
    else
      inodes index

/-- No inode is locked, and each that is dirty has a block that can be read. -/
structure Writable
    (devices : Devices)
    (inodes : Index → Inode)
    (indices : List Index) : Prop where
  unlocked :
    ∀ index ∈ indices, (inodes index).lock = false
  home :
    ∀ index ∈ indices, (inodes index).pending = true →
      ∃ place, (inodes index).home devices = some place ∧
        devices.readable place.1 place.2 = true

section Lists

variable {rest : List Index} {inodes' : Index → Inode}

theorem homes_cons_pending
    (pending : (inodes index).pending = true)
    (home : (inodes index).home devices = some place) :
    homes devices inodes (index :: rest) =
      place :: homes devices inodes rest := by
  unfold homes
  have kept :
      (index :: rest).filter (fun index => (inodes index).pending) =
        index :: rest.filter fun index => (inodes index).pending :=
    List.filter_cons_of_pos pending
  rw [kept]
  exact List.filterMap_cons_some home

theorem homes_cons_other
    (other : (inodes index).pending = false) :
    homes devices inodes (index :: rest) = homes devices inodes rest := by
  unfold homes
  have dropped :
      (index :: rest).filter (fun index => (inodes index).pending) =
        rest.filter fun index => (inodes index).pending :=
    List.filter_cons_of_neg (by rw [other]; exact Bool.false_ne_true)
  rw [dropped]

theorem homes_congr
    (same : ∀ index ∈ rest, inodes' index = inodes index) :
    homes devices inodes' rest = homes devices inodes rest := by
  induction rest with
  | nil =>
    rfl
  | cons index rest inductionHypothesis =>
    have here := same index List.mem_cons_self
    have inRest :=
      inductionHypothesis
        (fun index member => same index (List.mem_cons_of_mem _ member))
    unfold homes at inRest ⊢
    rw [List.filter_cons, List.filter_cons, here]
    by_cases pending : (inodes index).pending = true
    · rw [if_pos pending, if_pos pending, List.filterMap_cons,
        List.filterMap_cons, here, inRest]
    · rw [if_neg pending, if_neg pending, inRest]

theorem Writable.congr
    (writable : Writable devices inodes rest)
    (same : ∀ index ∈ rest, inodes' index = inodes index) :
    Writable devices inodes' rest where
  unlocked index member := by
    rw [same index member]
    exact writable.unlocked index member
  home index member := by
    rw [same index member]
    exact writable.home index member

theorem writable_cons :
    Writable devices inodes (index :: rest) ↔
      (inodes index).lock = false ∧
        ((inodes index).pending = true →
          ∃ place, (inodes index).home devices = some place ∧
            devices.readable place.1 place.2 = true) ∧
        Writable devices inodes rest := by
  constructor
  · intro writable
    exact ⟨writable.unlocked index List.mem_cons_self,
      writable.home index List.mem_cons_self,
      fun index member =>
        writable.unlocked index (List.mem_cons_of_mem _ member),
      fun index member =>
        writable.home index (List.mem_cons_of_mem _ member)⟩
  · rintro ⟨unlocked, home, writable⟩
    exact ⟨List.forall_mem_cons.mpr ⟨unlocked, writable.unlocked⟩,
      List.forall_mem_cons.mpr ⟨home, writable.home⟩⟩

theorem flushed_cons_other
    (other : (inodes index).pending = false) :
    flushed inodes (index :: rest) = flushed inodes rest := by
  funext index'
  unfold flushed
  by_cases this : index' = index
  · subst this
    rw [other, if_neg (fun both => Bool.false_ne_true both.2),
      if_neg (fun both => Bool.false_ne_true both.2)]
  · refine if_congr (and_congr_left' ?_) rfl rfl
    rw [List.mem_cons, or_iff_right this]

theorem flushed_cons_pending
    (pending : (inodes index).pending = true)
    (absent : index ∉ rest) :
    flushed
        (Function.update inodes index { inodes index with dirt := false })
        rest =
      flushed inodes (index :: rest) := by
  funext index'
  unfold flushed
  by_cases this : index' = index
  · subst this
    rw [Function.update_self, if_neg (fun both => absent both.1),
      if_pos ⟨List.mem_cons_self, pending⟩]
  · rw [Function.update_of_ne this]
    refine if_congr (and_congr_left' ?_) rfl rfl
    rw [List.mem_cons, or_iff_right this]

end Lists

/-- An inode without a device is left as it is. -/
theorem satisfies_writeInode
    (shows : Shows devices wanted heads inodes kernel)
    (unlocked : (inodes index).lock = false)
    (noDevice : (inodes index).dev = 0) :
    (writeInode devices done getblk index).Satisfies kernel
      (fun _ after => Shows devices wanted heads inodes after)
      (fun _ => False) := by
  unfold writeInode
  rw [satisfies_bind, satisfies_read, shows.table]
  simp only
  rw [unlocked, if_neg Bool.false_ne_true, satisfies_bind,
    satisfies_update, noDevice, beq_self_eq_true, Bool.or_true, if_pos rfl,
    satisfies_update]
  have locked : Shows devices wanted _ _ (kernel.lockInode index true) :=
    shows.lockInode
  have unlocked' : Shows devices wanted _ _
      ((kernel.lockInode index true).lockInode index false) :=
    locked.lockInode
  rw [Function.update_self, Function.update_idem] at unlocked'
  have same :
      Function.update inodes index { inodes index with lock := false } =
        inodes := by
    rw [← unlocked]
    exact Function.update_eq_self ..
  rw [same] at unlocked'
  exact unlocked'

/-- `sync_inodes` returns if and only if there is room for all blocks. -/
theorem returnsIff_syncInodes
    {indices : List Index}
    (nested : Nested devices wanted enough getblk)
    (shows : Shows devices wanted heads inodes kernel)
    (distinct : indices.Nodup) :
    ReturnsIff enough
      (Writable devices inodes indices ∧ Fits heads (homes devices inodes indices))
      (syncInodes devices done getblk indices) kernel
      (fun _ after =>
        ∃ heads', StoresAll heads (homes devices inodes indices) heads' ∧
          Shows devices wanted heads' (flushed inodes indices) after) := by
  induction indices generalizing heads inodes kernel with
  | nil =>
    have same : flushed inodes [] = inodes := by
      funext index
      exact if_neg (fun both => List.not_mem_nil both.1)
    rw [same]
    have finished :
        ReturnsIff enough True (syncInodes devices done getblk []) kernel
          (fun _ after =>
            ∃ heads', StoresAll heads (homes devices inodes []) heads' ∧
              Shows devices wanted heads' inodes after) :=
      Satisfies.returnsIff ⟨heads, .nil heads, shows⟩
    refine finished.of_iff (iff_of_true trivial ⟨⟨?_, ?_⟩, ?_⟩)
    · exact fun _ member => absurd member List.not_mem_nil
    · exact fun _ member => absurd member List.not_mem_nil
    · exact Nat.zero_le _
  | cons index rest inductionHypothesis =>
    obtain ⟨absent, distinct⟩ := List.nodup_cons.mp distinct
    rw [syncInodes, returnsIff_read_bind, shows.table, writable_cons]
    by_cases locked : (inodes index).lock = true
    · rw [if_pos locked]
      refine returnsIff_abandon.of_iff (iff_of_false id ?_)
      rintro ⟨⟨unlocked, _⟩, _⟩
      exact nomatch locked.symm.trans unlocked
    rw [if_neg locked]
    rw [Bool.not_eq_true] at locked
    by_cases pending : (inodes index).pending = true
    · have parts := pending
      unfold Inode.pending at parts
      rw [Bool.and_eq_true, bne_iff_ne] at parts
      obtain ⟨dirty, hasDevice⟩ := parts
      rw [if_pos dirty]
      rw [Bool.and_eq_true] at dirty
      have onRest :
          ∀ index' ∈ rest,
            Function.update inodes index
                { inodes index with dirt := false } index' =
              inodes index' := by
        intro index' member
        apply Function.update_of_ne
        rintro rfl
        exact absent member
      -- The condition of the rest, as it is before the inode is written.
      have whole :
          ReturnsIff enough
            ((∃ place, (inodes index).home devices = some place ∧
                devices.readable place.1 place.2 = true ∧ Room heads place) ∧
              Writable devices inodes rest ∧
                Fits heads (homes devices inodes (index :: rest)))
            (writeInode devices done getblk index >>= fun _ =>
              syncInodes devices done getblk rest) kernel
            (fun _ after =>
              ∃ heads',
                StoresAll heads (homes devices inodes (index :: rest))
                    heads' ∧
                  Shows devices wanted heads' (flushed inodes (index :: rest))
                    after) := by
        refine (returnsIff_writeInode nested shows locked dirty.1
          hasDevice).andThen ?_
        rintro _ middle _ ⟨place, heads', home, ⟨bh, stores⟩, shown⟩
        rw [homes_cons_pending pending home, stores.fits,
          ← flushed_cons_pending pending absent,
          ← homes_congr onRest]
        refine ((inductionHypothesis shown distinct).mono ?_).of_iff ?_
        · rintro _ after _ ⟨heads'', storesAll, shown'⟩
          exact ⟨heads'', .cons ⟨bh, stores⟩ storesAll, shown'⟩
        · refine and_congr_left' ⟨fun writable => ?_, fun writable => ?_⟩
          · exact writable.congr
              (fun index' member => (onRest index' member).symm)
          · exact writable.congr onRest
      refine whole.of_iff ?_
      constructor
      · rintro ⟨⟨place, home, readable, _⟩, writable, fits⟩
        exact ⟨⟨locked, fun _ => ⟨place, home, readable⟩, writable⟩, fits⟩
      · rintro ⟨⟨_, home, writable⟩, fits⟩
        obtain ⟨place, isHome, readable⟩ := home pending
        refine ⟨⟨place, isHome, readable, ?_⟩, writable, fits⟩
        rw [homes_cons_pending pending isHome] at fits
        exact room_of_fits fits
    · rw [Bool.not_eq_true] at pending
      rw [homes_cons_other pending, flushed_cons_other pending]
      have inRest :
          ∀ {middle : Kernel n}, Shows devices wanted heads inodes middle →
            ReturnsIff enough
              (((inodes index).lock = false ∧
                ((inodes index).pending = true →
                  ∃ place, (inodes index).home devices = some place ∧
                    devices.readable place.1 place.2 = true) ∧
                Writable devices inodes rest) ∧
                Fits heads (homes devices inodes rest))
              (syncInodes devices done getblk rest) middle
              (fun _ after =>
                ∃ heads',
                  StoresAll heads (homes devices inodes rest) heads' ∧
                    Shows devices wanted heads' (flushed inodes rest) after) := by
        intro middle shown
        refine (inductionHypothesis shown distinct).of_iff ?_
        refine and_congr_left' ⟨fun writable => ⟨locked, ?_, writable⟩,
          fun all => all.2.2⟩
        intro impossible
        exact nomatch pending.symm.trans impossible
      by_cases dirty :
          ((inodes index).dirt && !(inodes index).pipe) = true
      · have noDevice : (inodes index).dev = 0 := by
          unfold Inode.pending at pending
          rwa [dirty, Bool.true_and, bne_eq_false_iff_eq] at pending
        rw [if_pos dirty]
        exact (satisfies_writeInode shows locked noDevice).andThenIff
          fun _ _ shown => inRest shown
      · rw [if_neg dirty]
        exact inRest shows

end Evictions

end HitOs
