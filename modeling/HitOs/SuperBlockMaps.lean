import HitOs.SuperBlocks

namespace HitOs

/-!
# The maps of a super block

The loops of `read_super` take the number of the blocks of a map from the disk.  They
stay inside of the arrays where that number is small or a block cannot be read in time,
and then what they have read is released wherever the super block is given up.
-/

namespace SuperBlocks

/-! ## Held buffers -/

/-- The counts with one more for each of some buffers. -/
def held (buffers : List (Option Buffer)) (count : Buffer → Nat) : Buffer → Nat :=
  fun buf => count buf + buffers.count (some buf)

/-- What is held can be released. -/
theorem brelseAll_held
    (buffers : List (Option Buffer))
    (count : Buffer → Nat) :
    brelseAll buffers (held buffers count) = .ok count := by
  induction buffers with
  | nil =>
    rfl
  | cons buf rest inductionHypothesis =>
    cases buf with
    | none =>
      have same : held (none :: rest) count = held rest count := by
        funext other
        simp [held]
      rw [same]
      exact inductionHypothesis
    | some buf =>
      have positive : held (some buf :: rest) count buf ≠ 0 := by
        simp [held]
      have released :
          Function.update (held (some buf :: rest) count) buf
              (held (some buf :: rest) count buf - 1) =
            held rest count := by
        funext other
        by_cases same : other = buf
        · subst same
          simp only [Function.update_self, held, List.count_cons_self]
          omega
        · have different : some buf ≠ some other :=
            fun equal => same (Option.some.inj equal).symm
          simp only [Function.update_of_ne same, held, List.count_cons_of_ne different]
      unfold brelseAll brelse
      simp only [if_neg positive, released]
      exact inductionHypothesis

/-- A buffer that is read is held. -/
theorem held_concat
    (buffers : List (Option Buffer))
    (buf : Buffer)
    (count : Buffer → Nat) :
    Function.update (held buffers count) buf (held buffers count buf + 1) =
      held (buffers ++ [some buf]) count := by
  funext other
  by_cases same : other = buf
  · subst same
    simp [held, Nat.add_assoc]
  · have different : some buf ≠ some other :=
      fun equal => same (Option.some.inj equal).symm
    simp [held, Function.update_of_ne same, different]

theorem held_append
    (first second : List (Option Buffer))
    (count : Buffer → Nat) :
    held second (held first count) = held (first ++ second) count := by
  funext buf
  simp [held, Nat.add_assoc]

/-! ## A loop -/

/-- A map of which some blocks have been read. -/
def filled (dev first length : Nat) : Fin mapSlots → Option Buffer :=
  fun i => if i.val < length then some (dev, first + i.val) else none

variable {drive : Drive} {dev first length count blocks : Nat}

theorem filled_succ
    (inside : length < mapSlots) :
    Function.update (filled dev first length) ⟨length, inside⟩
        (some (dev, first + length)) =
      filled dev first (length + 1) := by
  funext i
  by_cases same : i = ⟨length, inside⟩
  · subst same
    simp [filled]
  · have apart : i.val ≠ length := fun equal => same (Fin.ext equal)
    have bounds : i.val < length ↔ i.val < length + 1 := by
      omega
    simp [filled, Function.update_of_ne same, bounds]

theorem filled_same
    (inside : length < mapSlots) :
    Function.update (filled dev first length) ⟨length, inside⟩ none =
      filled dev first length := by
  refine Function.update_eq_self_iff.mpr ?_
  simp [filled]

/-- The buffers that a map has, the free places last. -/
theorem ofFn_filled
    (inside : length ≤ mapSlots) :
    List.ofFn (filled dev first length) =
      (List.range' first length).map (fun block => some (dev, block)) ++
        List.replicate (mapSlots - length) none := by
  refine List.ext_getElem ?_ fun index _ _ => ?_
  · simp only [List.length_ofFn, List.length_append, List.length_map,
      List.length_range', List.length_replicate]
    omega
  by_cases read : index < length
  · simp [filled, read]
  · simp [filled, read, List.getElem_append]

theorem held_filled
    (inside : length ≤ mapSlots)
    (counts : Buffer → Nat) :
    held (List.ofFn (filled dev first length)) counts =
      held ((List.range' first length).map fun block => some (dev, block))
        counts := by
  funext buf
  simp [held, ofFn_filled inside, List.count_replicate]

theorem held_filled_succ
    (inside : length < mapSlots)
    (counts : Buffer → Nat) :
    Function.update (held (List.ofFn (filled dev first length)) counts)
        (dev, first + length)
        (held (List.ofFn (filled dev first length)) counts
          (dev, first + length) + 1) =
      held (List.ofFn (filled dev first (length + 1))) counts := by
  rw [held_filled (Nat.le_of_lt inside), held_filled inside, held_concat,
    List.range'_concat, List.map_append, Nat.one_mul]
  rfl

/-- How far a loop over the blocks of a map comes. -/
structure Stops
    (readable : Nat → Bool)
    (first blocks length : Nat) : Prop where
  inside :
    length ≤ mapSlots
  most :
    length ≤ blocks
  read :
    ∀ k < length, readable (first + k) = true
  early :
    length < blocks → readable (first + length) = false ∧ length < mapSlots

/-- A loop that goes on behind the end of the array. -/
def Overruns (readable : Nat → Bool) (first blocks : Nat) : Prop :=
  mapSlots < blocks ∧ ∀ k < mapSlots, readable (first + k) = true

/-- A loop that stops inside does not overrun. -/
theorem Stops.not_overruns
    {readable : Nat → Bool} {first blocks length : Nat}
    (stops : Stops readable first blocks length) :
    ¬Overruns readable first blocks := by
  rintro ⟨more, read⟩
  rcases Nat.lt_or_eq_of_le stops.most with less | rfl
  · obtain ⟨fails, inside⟩ := stops.early less
    rw [read length inside] at fails
    cases fails
  · exact absurd stops.inside (Nat.not_le.mpr more)

/-- The loops from the index `length` on. -/
theorem readMap_cases
    {remaining : Nat}
    (counts : Buffer → Nat)
    (inside : length ≤ mapSlots)
    (read : ∀ k < length, drive.readable dev (first + k) = true) :
    (Overruns (drive.readable dev) first (length + remaining) ∧
        readMap drive dev remaining length (first + length)
            (filled dev first length)
            (held (List.ofFn (filled dev first length)) counts) =
          .error .outside) ∨
      ∃ last, Stops (drive.readable dev) first (length + remaining) last ∧
        readMap drive dev remaining length (first + length)
            (filled dev first length)
            (held (List.ofFn (filled dev first length)) counts) =
          .ok (first + last, filled dev first last,
            held (List.ofFn (filled dev first last)) counts) := by
  induction remaining generalizing length with
  | zero =>
    refine Or.inr ⟨length, ⟨inside, Nat.le_refl _, read, ?_⟩, rfl⟩
    exact fun less => absurd less (Nat.lt_irrefl _)
  | succ remaining inductionHypothesis =>
    unfold readMap
    by_cases full : length < mapSlots
    · by_cases good : drive.readable dev (first + length) = true
      · have read' (k : Nat) (below : k < length + 1) :
            drive.readable dev (first + k) = true := by
          rcases Nat.lt_succ_iff_lt_or_eq.mp below with less | rfl
          · exact read k less
          · exact good
        simp only [bread, if_pos good, dif_pos full, Option.isSome_some, if_true,
          filled_succ full, held_filled_succ full]
        have moved : length + (remaining + 1) = length + 1 + remaining := by
          omega
        rw [moved]
        exact inductionHypothesis full read'
      · rw [Bool.not_eq_true] at good
        refine Or.inr ⟨length, ⟨inside, Nat.le_add_right _ _, read, ?_⟩, ?_⟩
        · exact fun _ => ⟨good, full⟩
        · simp [bread, good, full, filled_same full]
    · have reached : length = mapSlots := by
        omega
      subst reached
      refine Or.inl ⟨⟨by omega, read⟩, ?_⟩
      simp

/-- A loop from its start. -/
theorem readMap_outcome
    (counts : Buffer → Nat) :
    (Overruns (drive.readable dev) first blocks ∧
        readMap drive dev blocks 0 first (fun _ => none) counts = .error .outside) ∨
      ∃ last, Stops (drive.readable dev) first blocks last ∧
        readMap drive dev blocks 0 first (fun _ => none) counts =
          .ok (first + last, filled dev first last,
            held (List.ofFn (filled dev first last)) counts) := by
  have nothing : held (List.ofFn (filled dev first 0)) counts = counts := by
    rw [held_filled (Nat.zero_le _)]
    funext buf
    simp [held]
  have kinds :=
    @readMap_cases drive dev first 0 blocks counts (Nat.zero_le mapSlots)
      fun k below => absurd below (Nat.not_lt_zero k)
  rw [nothing, Nat.zero_add] at kinds
  exact kinds

/-! ## A call of `read_super` -/

/-- The slot that was taken is free again and nothing is held. -/
structure Clean (start after : Kernel) : Prop where
  slots :
    ∀ slot, after.super slot = start.super slot ∨
      (start.super slot).dev = 0 ∧
        (after.super slot).dev = 0 ∧
        (after.super slot).lock = false
  released :
    after.count = start.count

/-- A result for a call that has started in a state. -/
structure Sound
    (start : Kernel)
    (result : Except Fault (Option Slot × Kernel)) : Prop where
  inside :
    result ≠ .error .outside
  pointed :
    result ≠ .error .null
  clean :
    ∀ after, result = .ok (none, after) → Clean start after

/-- `read_super` is safe; a changed disk has been dropped before. -/
structure Safe (drive : Drive) (dev : Nat) (kernel : Kernel) : Prop where
  inside :
    readSuper drive dev kernel ≠ .error .outside
  pointed :
    readSuper drive dev kernel ≠ .error .null
  clean :
    ∀ start after, kernel.checkDiskChange drive dev = .ok start →
      readSuper drive dev kernel = .ok (none, after) → Clean start after

/-- Numbers of blocks of the maps with which the loops stay inside. -/
structure Fits
    (readable : Nat → Bool)
    (imapBlocks zmapBlocks : Nat) : Prop where
  imap :
    ¬Overruns readable 2 imapBlocks
  zmap :
    (∀ k < imapBlocks, readable (2 + k) = true) →
      ¬Overruns readable (2 + imapBlocks) zmapBlocks
  both :
    (∀ k < imapBlocks + zmapBlocks, readable (2 + k) = true) →
      0 < imapBlocks ∧ 0 < zmapBlocks

/-- The maps of a device are read: its super block is one, and there is a slot for it. -/
structure ReadsMaps (drive : Drive) (dev : Nat) (start : Kernel) : Prop where
  device :
    dev ≠ 0
  unknown :
    start.getSuper dev = none
  free :
    ∃ slot, (start.super slot).dev = 0
  readable :
    drive.readable dev 1 = true
  magic :
    fields (start.data (dev, 1)) .magic = superMagic

variable {kernel start after : Kernel} {slot : Slot} {readable : Nat → Bool}

theorem clean_drop
    {middle : Kernel}
    (free : (start.super slot).dev = 0)
    (others : ∀ other, other ≠ slot → middle.super other = start.super other)
    (released : middle.count = start.count) :
    Clean start (middle.drop slot) where
  slots other := by
    by_cases same : other = slot
    · subst same
      refine Or.inr ⟨free, ?_, ?_⟩
      · simp [Kernel.drop, Kernel.set]
      · simp [Kernel.drop, Kernel.set]
    · refine Or.inl ?_
      rw [← others other same]
      exact Function.update_of_ne same _ _
  released := released

theorem sound_drop
    {middle : Kernel}
    (clean : Clean start (middle.drop slot)) :
    Sound start (.ok (none, middle.drop slot)) where
  inside := nofun
  pointed := nofun
  clean after same := by
    cases same
    exact clean

/-- The second loop begins at the block where the first one has stopped. -/
theorem overruns_second_iff
    {imapBlocks zmapBlocks length : Nat}
    (stops : Stops readable 2 imapBlocks length) :
    Overruns readable (2 + length) zmapBlocks ↔
      (∀ k < imapBlocks, readable (2 + k) = true) ∧
        Overruns readable (2 + imapBlocks) zmapBlocks := by
  rcases Nat.lt_or_eq_of_le stops.most with less | rfl
  · have fails := (stops.early less).1
    constructor
    · intro overruns
      have first := overruns.2 0 (by decide)
      rw [Nat.add_zero, fails] at first
      cases first
    · rintro ⟨read, _⟩
      have first := read length less
      rw [fails] at first
      cases first
  · exact ⟨fun overruns => ⟨stops.read, overruns⟩, fun both => both.2⟩

/-- Both loops have read all blocks where the count is right. -/
theorem all_read_iff
    {imapBlocks zmapBlocks length last : Nat}
    (stops : Stops readable 2 imapBlocks length)
    (stops' : Stops readable (2 + length) zmapBlocks last) :
    2 + length + last = 2 + imapBlocks + zmapBlocks ↔
      ∀ k < imapBlocks + zmapBlocks, readable (2 + k) = true := by
  have most := stops.most
  have most' := stops'.most
  constructor
  · intro right k below
    have all : length = imapBlocks := by
      omega
    subst all
    by_cases first : k < length
    · exact stops.read k first
    · have read := stops'.read (k - length) (by omega)
      rwa [show 2 + length + (k - length) = 2 + k by omega] at read
  · intro read
    have all : length = imapBlocks := by
      refine Nat.le_antisymm most (Nat.not_lt.mp fun less => ?_)
      have good := read length (by omega)
      rw [(stops.early less).1] at good
      cases good
    have all' : last = zmapBlocks := by
      refine Nat.le_antisymm most' (Nat.not_lt.mp fun less => ?_)
      have good := read (length + last) (by omega)
      rw [← Nat.add_assoc, (stops'.early less).1] at good
      cases good
    rw [all, all']

/-- What is left to do when both loops have stayed inside. -/
theorem sound_finish_iff
    {length last : Nat} {sb : SuperBlock}
    (free : (start.super slot).dev = 0)
    (others : ∀ other, other ≠ slot → kernel.super other = start.super other)
    (stops : Stops readable 2 (sb.disk .imapBlocks) length)
    (stops' : Stops readable (2 + length) (sb.disk .zmapBlocks) last) :
    Sound start
        (finish slot (2 + length + last)
          { kernel.set slot
              { sb with
                imap := filled dev 2 length
                zmap := filled dev (2 + length) last } with
            count :=
              held (List.ofFn (filled dev (2 + length) last))
                (held (List.ofFn (filled dev 2 length)) start.count) }) ↔
      ((∀ k < sb.disk .imapBlocks + sb.disk .zmapBlocks,
          readable (2 + k) = true) →
        0 < sb.disk .imapBlocks ∧ 0 < sb.disk .zmapBlocks) := by
  rw [← all_read_iff stops stops', held_append]
  unfold finish
  simp only [Kernel.set, Function.update_self]
  have most := stops.most
  have most' := stops'.most
  by_cases right :
      2 + length + last = 2 + sb.disk .imapBlocks + sb.disk .zmapBlocks
  · have all : length = sb.disk .imapBlocks := by
      omega
    have all' : last = sb.disk .zmapBlocks := by
      omega
    simp only [right, ne_eq, not_true, if_false, true_imp_iff]
    rw [← all, ← all']
    by_cases first : 0 < length
    · by_cases second : 0 < last
      · have found : filled dev 2 length 0 = some (dev, 2) := if_pos first
        have found' : filled dev (2 + length) last 0 = some (dev, 2 + length) :=
          if_pos second
        rw [found, found']
        refine iff_of_true ⟨nofun, nofun, ?_⟩ ⟨first, second⟩
        intro after same
        cases same
      · have missing : filled dev (2 + length) last 0 = none := if_neg second
        rw [missing]
        refine iff_of_false ?_ fun both => second both.2
        intro sound
        refine sound.pointed ?_
        cases filled dev 2 length 0 <;> rfl
    · have missing : filled dev 2 length 0 = none := if_neg first
      rw [missing]
      refine iff_of_false ?_ fun both => first both.1
      exact fun sound => sound.pointed rfl
  · simp only [right, ne_eq, not_false_eq_true, if_true, Kernel.releaseMaps,
      Function.update_self, brelseAll_held]
    refine iff_of_true (sound_drop (clean_drop free ?_ rfl)) fun impossible => nomatch impossible
    intro other different
    exact (Function.update_of_ne different _ _).trans (others other different)

theorem sound_readMaps_iff
    (free : (start.super slot).dev = 0)
    (others : ∀ other, other ≠ slot → kernel.super other = start.super other)
    (counts : kernel.count = start.count) :
    Sound start (readMaps drive dev slot kernel) ↔
      ((kernel.super slot).disk .magic = superMagic →
        Fits (drive.readable dev) ((kernel.super slot).disk .imapBlocks)
          ((kernel.super slot).disk .zmapBlocks)) := by
  unfold readMaps
  dsimp only
  by_cases magic : (kernel.super slot).disk .magic = superMagic
  swap
  · rw [if_pos magic]
    exact iff_of_true (sound_drop (clean_drop free others counts))
      fun same => absurd same magic
  rw [if_neg (not_not_intro magic), counts]
  refine Iff.trans ?_ (forall_prop_of_true magic).symm
  rcases readMap_outcome start.count with
    ⟨overruns, reads⟩ | ⟨length, stops, reads⟩
  · rw [reads]
    exact iff_of_false (fun sound => sound.inside rfl)
      fun fits => fits.imap overruns
  rw [reads]
  dsimp only
  rcases readMap_outcome (held (List.ofFn (filled dev 2 length)) start.count) with
    ⟨overruns, reads'⟩ | ⟨last, stops', reads'⟩
  · rw [reads']
    have both := (overruns_second_iff stops).mp overruns
    exact iff_of_false (fun sound => sound.inside rfl)
      fun fits => fits.zmap both.1 both.2
  rw [reads']
  refine (sound_finish_iff free others stops stops').trans ⟨?_, fun fits => fits.both⟩
  intro both
  refine ⟨stops.not_overruns, ?_, both⟩
  intro read overruns
  exact stops'.not_overruns ((overruns_second_iff stops).mpr ⟨read, overruns⟩)

theorem sound_readSlot_iff
    (free : (start.super slot).dev = 0) :
    Sound start (readSlot drive dev slot start) ↔
      (drive.readable dev 1 = true →
        fields (start.data (dev, 1)) .magic = superMagic →
          Fits (drive.readable dev)
            (fields (start.data (dev, 1)) .imapBlocks)
            (fields (start.data (dev, 1)) .zmapBlocks)) := by
  have others (sb : SuperBlock) (other : Slot) (different : other ≠ slot) :
      (start.set slot sb).super other = start.super other :=
    Function.update_of_ne different _ _
  unfold readSlot bread
  by_cases read : drive.readable dev 1 = true
  · have restored :
        Function.update
            (Function.update start.count (dev, 1) (start.count (dev, 1) + 1))
            (dev, 1) (start.count (dev, 1)) =
          start.count := by
      rw [Function.update_idem, Function.update_eq_self]
    simp only [if_pos read, brelse, Function.update_self,
      Nat.add_one_ne_zero, if_false, Nat.add_sub_cancel, restored]
    refine (sound_readMaps_iff free ?_ ?_).trans ?_
    · exact fun other different => others _ other different
    · rfl
    · simp only [Kernel.set, Function.update_self]
      exact ⟨fun fits _ => fits, fun fits => fits read⟩
  · rw [if_neg read]
    refine iff_of_true (sound_drop (clean_drop free ?_ rfl)) ?_
    · exact fun other different => others _ other different
    · exact fun same => absurd same read

theorem brelseAll_error
    {buffers : List (Option Buffer)} {counts : Buffer → Nat} {fault : Fault}
    (failed : brelseAll buffers counts = .error fault) :
    fault = .freeBuffer := by
  induction buffers generalizing counts with
  | nil =>
    cases failed
  | cons buf rest inductionHypothesis =>
    unfold brelseAll at failed
    split at failed
    · rename_i early
      cases failed
      unfold brelse at early
      split at early
      · cases early
      split at early
      · cases early
        rfl
      · cases early
    · exact inductionHypothesis failed

theorem putSuper_error
    {fault : Fault}
    (failed : kernel.putSuper dev = .error fault) :
    fault = .freeBuffer := by
  unfold Kernel.putSuper at failed
  split at failed
  · cases failed
  split at failed
  · cases failed
  split at failed
  · cases failed
  split at failed
  · rename_i early
    cases failed
    unfold Kernel.releaseMaps at early
    dsimp only at early
    split at early
    · rename_i released
      cases early
      exact brelseAll_error released
    · cases early
  · cases failed

/-- The loop of `check_disk_change`. -/
theorem foldlM_putSuper_error
    {slots : List Slot} {fault : Fault}
    (failed :
      slots.foldlM
          (fun (kernel : Kernel) slot =>
            if (kernel.super slot).dev = dev then
              kernel.putSuper (kernel.super slot).dev
            else
              .ok kernel)
          kernel =
        .error fault) :
    fault = .freeBuffer := by
  induction slots generalizing kernel with
  | nil =>
    cases failed
  | cons slot slots inductionHypothesis =>
    rw [List.foldlM_cons] at failed
    by_cases same : (kernel.super slot).dev = dev
    · rw [if_pos same] at failed
      cases put : kernel.putSuper (kernel.super slot).dev with
      | error early =>
        rw [put] at failed
        cases failed
        exact putSuper_error put
      | ok middle =>
        rw [put] at failed
        exact inductionHypothesis failed
    · rw [if_neg same] at failed
      exact inductionHypothesis failed

/-- A disk that has been changed is dropped without a fault of another kind. -/
theorem checkDiskChange_error
    {fault : Fault}
    (failed : kernel.checkDiskChange drive dev = .error fault) :
    fault = .freeBuffer := by
  unfold Kernel.checkDiskChange at failed
  split at failed
  · cases failed
  split at failed
  · cases failed
  · exact foldlM_putSuper_error failed

theorem safe_iff_sound
    (checked : kernel.checkDiskChange drive dev = .ok start) :
    Safe drive dev kernel ↔ Sound start (readSuper drive dev kernel) := by
  constructor
  · intro safe
    exact ⟨safe.inside, safe.pointed, fun after => safe.clean start after checked⟩
  · intro sound
    refine ⟨sound.inside, sound.pointed, ?_⟩
    intro other after checked' returned
    cases checked.symm.trans checked'
    exact sound.clean after returned

/--
`read_super` is safe exactly where the super block does not name more blocks of the maps
than there are places for, unless one of the first cannot be read, and none of the maps
is empty.
-/
theorem safe_iff_fits
    (drive : Drive)
    (dev : Nat)
    (kernel : Kernel) :
    Safe drive dev kernel ↔
      ∀ start, kernel.checkDiskChange drive dev = .ok start →
        ReadsMaps drive dev start →
          Fits (drive.readable dev)
            (fields (start.data (dev, 1)) .imapBlocks)
            (fields (start.data (dev, 1)) .zmapBlocks) := by
  by_cases device : dev = 0
  · subst device
    refine iff_of_true ⟨nofun, nofun, ?_⟩ fun _ _ reads => absurd rfl reads.device
    intro start after checked returned
    cases checked
    cases returned
    exact ⟨fun _ => Or.inl rfl, rfl⟩
  cases checked : kernel.checkDiskChange drive dev with
  | error fault =>
    have result : readSuper drive dev kernel = .error fault := by
      simp only [readSuper, if_neg device, checked]
    have other : fault = .freeBuffer := checkDiskChange_error checked
    subst other
    refine iff_of_true ⟨?_, ?_, ?_⟩ ?_
    · rw [result]
      nofun
    · rw [result]
      nofun
    · intro start after checked'
      cases checked.symm.trans checked'
    · intro start checked'
      cases checked'
  | ok start =>
    refine (safe_iff_sound checked).trans ?_
    have only (property : Kernel → Prop) :
        (∀ other, Except.ok start = (.ok other : Except Fault Kernel) →
          property other) ↔ property start :=
      ⟨fun all => all start rfl, fun holds other same => by cases same; exact holds⟩
    refine Iff.trans ?_ (only _).symm
    simp only [readSuper, if_neg device, checked]
    cases known : start.getSuper dev with
    | some slot =>
      refine iff_of_true ⟨nofun, nofun, ?_⟩ ?_
      · intro after same
        cases same
      · intro reads
        cases known.symm.trans reads.unknown
    | none =>
      cases found :
          (List.finRange nrSuper).find? fun slot =>
            (start.super slot).dev == 0 with
      | none =>
        refine iff_of_true ⟨nofun, nofun, ?_⟩ ?_
        · intro after same
          cases same
          exact ⟨fun _ => Or.inl rfl, rfl⟩
        · rintro ⟨_, _, ⟨slot, free⟩, _, _⟩
          have used := List.find?_eq_none.mp found slot (List.mem_finRange slot)
          exact absurd (beq_iff_eq.mpr free) used
      | some slot =>
        have zero : ((start.super slot).dev == 0) = true := by
          have passed := List.find?_some found
          exact passed
        have free : (start.super slot).dev = 0 := beq_iff_eq.mp zero
        refine (sound_readSlot_iff free).trans ⟨?_, ?_⟩
        · exact fun fits reads => fits reads.readable reads.magic
        · intro fits readable magic
          exact fits ⟨device, known, ⟨slot, free⟩, readable, magic⟩

/-- A super block with one block more of inode maps than there are places for. -/
def nineMaps : Block :=
  fun offset =>
    if offset = 4 then 9
    else if offset = 6 then 1
    else if offset = 16 then 0x7f
    else if offset = 17 then 0x13
    else 0

/-- A kernel without super blocks, and devices of such blocks. -/
def noSuper : Kernel where
  super _ :=
    { disk := fun _ => 0
      imap := fun _ => none
      zmap := fun _ => none
      dev := 0
      isup := none
      imount := none
      time := 0
      lock := false
      rdOnly := false
      dirt := false }
  count _ := 0
  data _ := nineMaps
  rootDev := 0x301

/-- The ninth block is stored behind `s_imap`. -/
theorem not_always_safe :
    ¬∀ (drive : Drive) (dev : Nat) (kernel : Kernel), Safe drive dev kernel := by
  intro always
  have safe := always ⟨false, fun _ _ => true⟩ 0x301 noSuper
  exact safe.inside rfl

end SuperBlocks

end HitOs
